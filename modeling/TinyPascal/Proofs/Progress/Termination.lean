import TinyPascal.Proofs.Outcome
import TinyPascal.Proofs.Progress.Recursion
import TinyPascal.Proofs.Progress.Turns
import TinyPascal.Proofs.Spelling.Places

/-!
# Every parse comes to an end

However malformed a text is, its parse ends, because whatever repeats consumes a token: a
further turn of a loop, and a rule inside itself. What is consumed are tokens of the text;
the end-of-file mark is looked at, but neither consumed nor passed on.
-/

namespace TinyPascal

set_option autoImplicit false

/-- The event passes on no end-of-file mark. -/
def ParseEvent.IsReal : ParseEvent → Prop
  | comment token | consumed token => token.kind ≠ .eof
  | _ => True

namespace ParseState

/-- No end-of-file mark has been passed on, and none is among the tokens to come. -/
structure Real (s : ParseState) : Prop where
  past : ∀ event ∈ s.trace, event.IsReal
  tokens : ∀ arrival ∈ s.unread, arrival.token.kind ≠ .eof
  events : ∀ arrival ∈ s.unread, ∀ event ∈ arrival.events, event.IsReal
  endEvents : ∀ event ∈ s.ending.events, event.IsReal

namespace Real

variable {s : ParseState}

theorem pull_events (real : s.Real) {arrival : Arrival} {rest : List Arrival}
    (unread : s.unread = arrival :: rest) :
    ∀ event ∈ pullEvents s.ending rest, event.IsReal := by
  have events := real.events
  rw [unread] at events
  rcases rest with _ | ⟨_, _ | ⟨second, _⟩⟩
  · simp [ParseState.pullEvents]
  · exact real.endEvents
  · exact events second (by simp)

theorem advance (real : s.Real) (more : s.unread ≠ []) : s.advance.Real := by
  rcases List.exists_cons_of_ne_nil more with ⟨arrival, rest, unread⟩
  have tokens := real.tokens
  have events := real.events
  rw [unread] at tokens events
  have pulled := real.pull_events unread
  constructor
  · intro event member
    simp only [ParseState.advance, unread, observe, List.mem_cons, List.mem_append,
      List.mem_reverse] at member
    rcases member with rfl | member | member
    · exact tokens arrival List.mem_cons_self
    · exact pulled event member
    · exact real.past event member
  · rw [unread_advance, unread]
    exact fun other member => tokens other (List.mem_cons_of_mem _ member)
  · rw [unread_advance, unread]
    exact fun other member => events other (List.mem_cons_of_mem _ member)
  · simpa [ParseState.advance, unread, observe] using real.endEvents

theorem reported (real : s.Real) (diagnostic : Diagnostic) :
    ∀ event ∈ ParseEvent.reported diagnostic :: s.trace, event.IsReal := by
  intro event member
  rcases List.mem_cons.mp member with rfl | member
  · trivial
  · exact real.past event member

theorem refuse (real : s.Real) (problem : SyntacticProblem) : (s.refuse problem).Real := by
  refine ⟨?_, real.tokens, real.events, real.endEvents⟩
  unfold ParseState.refuse
  simp only []
  split
  · exact real.past
  · exact real.reported _

theorem lasting : Lasting Real where
  advance real more := real.advance more
  refuse problem real := real.refuse problem
  warn _ _ real := ⟨real.reported _, real.tokens, real.events, real.endEvents⟩
  calm real := ⟨real.past, real.tokens, real.events, real.endEvents⟩

end Real

theorem real_start (source : String) : (start (.ofText source)).Real := by
  rcases Scan.laid_read_from [] source.toList with ⟨final, laid, -⟩
  have scanned : ∀ item ∈ (Scan.ofText source).items, item.token.kind ≠ .eof := by
    intro item member
    exact laid.real item.token (List.mem_map_of_mem member)
  have faults : ∀ item : Item, ∀ event ∈ Stream.faultEvents item, event.IsReal := by
    intro item event member
    rcases List.mem_map.mp member with ⟨fault, -, rfl⟩
    trivial
  have events := @Stream.events_gather (Scan.ofText source).ending [] (Scan.ofText source).items
    ParseEvent.IsReal (fun event member => (List.not_mem_nil member).elim)
    (fun item member => ⟨trivial, scanned item member, faults item⟩) (faults _)
  rw [start_eq]
  refine ⟨?_, ?_, events.1, events.2⟩
  · intro event member
    exact events_pulled events.1 events.2 2 event (List.mem_reverse.mp member)
  · intro arrival member
    have word := List.mem_map_of_mem (f := Arrival.token) member
    rw [Stream.tokens_of_text] at word
    rcases List.mem_map.mp (List.mem_filter.mp word).1 with ⟨item, found, same⟩
    rw [← same]
    exact scanned item found

end ParseState

namespace Parse

open ParseState

theorem real_events (source : String) : ∀ event ∈ (ofText source).events, event.IsReal := by
  intro event member
  have real := Real.lasting.program (Nat.lt_succ_self _) (real_start source)
  exact real.past event (List.mem_reverse.mp member)

theorem recorder_real (source : String) :
    ∀ token ∈ (ofText source).recorder.tokens ++ (ofText source).recorder.comments,
      token.kind ≠ .eof := by
  intro token member
  rcases List.mem_append.mp member with member | member
  all_goals
    rcases List.mem_filterMap.mp member with ⟨event, happened, passed⟩
    have real := real_events source event happened
    cases event <;> cases passed
    exact real

/-- Parsing ends on every text. The outcome is the same under every bound that lets the
parse start, so no bound cuts it short. A loop runs turn by turn, each turn consuming the
token that opens it, and makes at most as many turns as tokens are unread. The rules that
lead back into themselves do so behind a consumed token. A recovery stops at the first
token of its set and leaves it unread. The end-of-file mark is never recorded. -/
theorem parsing_always_progresses :
    (∀ (stream : Stream) (n : Nat) (bounded : (start stream).unread.length < n),
      let outcome := (Step.program n : Step n Program) (start stream) bounded
      (ofStream stream).program = outcome.value ∧
      (ofStream stream).hadError = outcome.state.hadError ∧
      (ofStream stream).events = outcome.state.trace.reverse) ∧
    (∀ (α : Type) (n m : Nat) (opens : Kind → Bool) (item : Token → Rule n α) (fits : m ≤ n + 1)
      (s : ParseState) (bounded : s.unread.length < m),
      Step.Turns opens item s (Step.row opens item m fits s bounded).value
        (Step.row opens item m fits s bounded).state ∧
      (Step.row opens item m fits s bounded).value.items.length +
        (Step.row opens item m fits s bounded).state.unread.length ≤ s.unread.length) ∧
    Step.Guarded (fun _ inner => (Rule.factorOf (OptionT.mk inner)).run) ∧
    Step.Guarded (fun n inner => (Rule.commandOf (Rule.expression n) (OptionT.mk inner)).run) ∧
    Step.Guarded (fun _ nested => Step.procedureRow nested) ∧
    (∀ (n : Nat) (stops : Kind → Bool) (s : ParseState) (bounded : s.unread.length < n),
      s.panicking = true →
      ∃ skipped, s.unread = skipped ++ (Step.recover stops s bounded).state.unread ∧
        (∀ arrival ∈ skipped, stops arrival.token.kind = false) ∧
        ∀ arrival ∈ (Step.recover stops s bounded).state.unread.head?,
          stops arrival.token.kind = true) ∧
    (∀ (source : String),
      ∀ token ∈ (ofText source).recorder.tokens ++ (ofText source).recorder.comments,
        token.kind ≠ .eof) := by
  refine ⟨?_, ?_, Step.guarded_factor, Step.guarded_command, Step.guarded_procedures,
    fun n stops s bounded => recover_stops stops bounded, recorder_real⟩
  · intro stream n bounded
    rw [Step.program_unbounded n _ _ bounded (start stream).fits]
    exact ⟨rfl, rfl, rfl⟩
  · intro α n m opens item fits s bounded
    have turns := Step.turns_row opens item m fits s bounded
    exact ⟨turns, turns.length_items⟩

/-- A text of which nothing fits: a wider bound changes nothing, and a recovery in it leaves
the `begin` that it stops at. -/
theorem garbage_is_read_to_its_end :
    ∃ bounded, ((Step.program 40 : Step 40 Program) (start (.ofText ") 7 begin if ("))
        bounded).state.hadError = (ofText ") 7 begin if (").hadError ∧
      ∃ skipped, ((start (.ofText ") 7 begin if (")).refuse .programKeyword).unread = skipped ++
          (Step.recover Kind.endsHeader ((start (.ofText ") 7 begin if (")).refuse .programKeyword)
            bounded).state.unread ∧
        ∀ arrival ∈ skipped, arrival.token.kind.endsHeader = false := by
  have bounded : (start (.ofText ") 7 begin if (")).unread.length < 40 := by decide +kernel
  have same := parsing_always_progresses.1 (.ofText ") 7 begin if (") 40 bounded
  have recovers := parsing_always_progresses.2.2.2.2.2.1 40 Kind.endsHeader
    ((start (.ofText ") 7 begin if (")).refuse .programKeyword) bounded rfl
  rcases recovers with ⟨skipped, split, passed, -⟩
  exact ⟨bounded, same.2.1.symm, skipped, split, passed⟩

end Parse

end TinyPascal
