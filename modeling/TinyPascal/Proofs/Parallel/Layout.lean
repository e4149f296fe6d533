import TinyPascal.Proofs.Outcome
import TinyPascal.Proofs.Parallel.Rules

/-!
# A parse depends on words, not on layout

Two streams with the same words, that is, with tokens of the same kinds and
texts, are parsed alike: the trees differ only in places, the same words are
consumed, and the same remarks are made. This holds of broken texts as well.
-/

namespace TinyPascal

set_option autoImplicit false

/-- A remark without its place. -/
def Diagnostic.gist (diagnostic : Diagnostic) : Severity × Problem :=
  (diagnostic.severity, diagnostic.problem)

def Program.bare (program : Program) : Program := program.seen .bare

/-- Streams that differ only in places, comments and faults. -/
structure Stream.SameWords (first second : Stream) : Prop where
  arrivals : first.arrivals.map (fun arrival => arrival.token.bare) =
    second.arrivals.map fun arrival => arrival.token.bare
  ending : first.ending.token.bare = second.ending.token.bare
  truncated : first.truncated = second.truncated

namespace ParseState

/-- States of parses that have gone the same way over the same words. -/
structure SameWords (s t : ParseState) : Prop where
  unread : s.unread.map (fun arrival => arrival.token.bare) =
    t.unread.map fun arrival => arrival.token.bare
  ending : s.ending.token.bare = t.ending.token.bare
  truncated : s.truncated = t.truncated
  panicking : s.panicking = t.panicking
  consumed : s.consumed.map Token.bare = t.consumed.map Token.bare
  remarks : s.remarks.map Diagnostic.gist = t.remarks.map Diagnostic.gist
  orderly : s.Orderly
  orderly' : t.Orderly

theorem orderly_advance {s : ParseState} (orderly : s.Orderly) : s.advance.Orderly := by
  cases unread : s.unread with
  | nil =>
      have same : s.advance = s := by simp [advance, unread]
      rwa [same]
  | cons arrival rest => exact (follows_advance orderly unread).orderly orderly

theorem consumed_refuse (s : ParseState) (problem : SyntacticProblem) :
    (s.refuse problem).consumed = s.consumed := by
  unfold refuse consumed
  simp only []
  split
  · rfl
  · simp [ParseEvent.consumed?]

theorem remarks_refuse (s : ParseState) (problem : SyntacticProblem) :
    (s.refuse problem).remarks =
      if (s.truncated && s.unread.isEmpty) = true then s.remarks
      else s.remarks ++ [.about .error s.current (.syntactic problem)] := by
  unfold refuse remarks
  simp only []
  split
  · rfl
  · simp [ParseEvent.remark?, Diagnostic.about, Diagnostic.phase, Problem.phase]

variable {s t : ParseState}

namespace SameWords

theorem length (same : s.SameWords t) : s.unread.length = t.unread.length := by
  have lengths := congrArg List.length same.unread
  simpa using lengths

theorem current (same : s.SameWords t) : s.current.bare = t.current.bare := by
  have tokens := same.unread
  unfold ParseState.current
  cases unread : s.unread with
  | nil =>
      rw [unread, List.map_nil] at tokens
      rw [List.map_eq_nil_iff.mp tokens.symm]
      exact same.ending
  | cons arrival rest =>
      rw [unread, List.map_cons] at tokens
      obtain ⟨arrival', rest', unread', alike, -⟩ := List.map_eq_cons_iff.mp tokens.symm
      rw [unread']
      exact alike.symm

theorem advance (same : s.SameWords t) (more : s.unread ≠ []) : s.advance.SameWords t.advance := by
  obtain ⟨arrival, rest, unread⟩ := List.exists_cons_of_ne_nil more
  have tokens := same.unread
  rw [unread, List.map_cons] at tokens
  obtain ⟨arrival', rest', unread', alike, others⟩ := List.map_eq_cons_iff.mp tokens.symm
  have first := follows_advance same.orderly unread
  have second := follows_advance same.orderly' unread'
  constructor
  · rw [unread_advance, unread_advance, unread, unread']
    exact others.symm
  · rw [first.ending, second.ending, same.ending]
  · rw [first.truncated, second.truncated, same.truncated]
  · rw [first.panicking, second.panicking, same.panicking]
  · rw [first.consumed, second.consumed, List.map_append, List.map_append, same.consumed]
    simp [alike]
  · rw [first.remarks, second.remarks, List.map_append, List.map_append, same.remarks]
    rfl
  · exact orderly_advance same.orderly
  · exact orderly_advance same.orderly'

theorem refuse (same : s.SameWords t) (problem : SyntacticProblem) :
    (s.refuse problem).SameWords (t.refuse problem) := by
  have empty : s.unread.isEmpty = t.unread.isEmpty := by
    simpa using congrArg List.isEmpty same.unread
  refine ⟨same.unread, same.ending, same.truncated, rfl, ?_, ?_, ⟨same.orderly.1, same.orderly.2⟩,
    ⟨same.orderly'.1, same.orderly'.2⟩⟩
  · rw [consumed_refuse, consumed_refuse]
    exact same.consumed
  · rw [remarks_refuse, remarks_refuse, same.truncated, empty]
    split
    · exact same.remarks
    · rw [List.map_append, List.map_append, same.remarks]
      rfl

theorem warn (same : s.SameWords t) (problem : SyntacticProblem) (token other : Token) :
    (s.warn token problem).SameWords (t.warn other problem) := by
  have first := follows_warn s token problem
  have second := follows_warn t other problem
  refine ⟨same.unread, same.ending, same.truncated, same.panicking, ?_, ?_,
    ⟨same.orderly.1, same.orderly.2⟩, ⟨same.orderly'.1, same.orderly'.2⟩⟩
  · rw [first.consumed, second.consumed, List.map_append, List.map_append, same.consumed]
    rfl
  · rw [first.remarks, second.remarks, List.map_append, List.map_append, same.remarks]
    rfl

theorem calm (same : s.SameWords t) : s.calm.SameWords t.calm :=
  ⟨same.unread, same.ending, same.truncated, rfl, same.consumed, same.remarks,
    ⟨same.orderly.1, same.orderly.2⟩, ⟨same.orderly'.1, same.orderly'.2⟩⟩

end SameWords

theorem parallel_same_words : Parallel .bare SameWords where
  current same := same.current
  unread same := same.length
  panicking same := same.panicking
  advance same more := same.advance more
  refuse problem same := same.refuse problem
  warn problem same _ := same.warn problem _ _
  calm same := same.calm

theorem same_words_start {first second : Stream} (same : first.SameWords second)
    (lexical : first.Lexical) (lexical' : second.Lexical) :
    (start first).SameWords (start second) := by
  have none := consumed_start lexical
  have none' := consumed_start lexical'
  refine ⟨?_, ?_, ?_, ?_, ?_, ?_, (ready_start lexical).toOrderly, (ready_start lexical').toOrderly⟩
  · rw [unread_start, unread_start]
    exact same.arrivals
  · rw [ending_start, ending_start]
    exact same.ending
  · rw [start_eq, start_eq]
    exact same.truncated
  · rw [panicking_start, panicking_start]
  · rw [none.1, none'.1]
  · rw [none.2, none'.2]

end ParseState

namespace Parse

open ParseState

theorem of_stream_eq {stream : Stream} {n : Nat} (size : stream.arrivals.length + 1 = n) :
    ∃ bounded,
      (ofStream stream).program = ((Step.program n : Step n Program) (start stream) bounded).value ∧
      finalState stream = ((Step.program n : Step n Program) (start stream) bounded).state := by
  rw [← unread_start] at size
  subst size
  exact ⟨Nat.lt_succ_self _, rfl, rfl⟩

theorem alike_of_same_words {first second : Stream} (same : first.SameWords second)
    (lexical : first.Lexical) (lexical' : second.Lexical) :
    (ofStream first).program.bare = (ofStream second).program.bare ∧
      (ofStream first).recorder.tokens.map Token.bare =
        (ofStream second).recorder.tokens.map Token.bare ∧
      (ofStream first).remarks.map Diagnostic.gist =
        (ofStream second).remarks.map Diagnostic.gist := by
  have size : first.arrivals.length = second.arrivals.length := by
    simpa using congrArg List.length same.arrivals
  obtain ⟨bounded, value, state⟩ := @of_stream_eq first _ rfl
  obtain ⟨bounded', value', state'⟩ := of_stream_eq (congrArg (· + 1) size.symm)
  obtain ⟨programs, states⟩ := Step.alike_program parallel_same_words _ (first.arrivals.length + 1)
    (start first) (start second) bounded bounded' (same_words_start same lexical lexical')
  rw [← value, ← value'] at programs
  rw [← state, ← state'] at states
  exact ⟨programs, states.consumed, states.remarks⟩

end Parse

end TinyPascal
