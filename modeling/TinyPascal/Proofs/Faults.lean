import TinyPascal.Proofs.Discipline.Candour
import TinyPascal.Proofs.Parallel.Truncated

/-!
# Which faults of a text its parse gets to see

A parse pulls tokens as it needs them, and two more than it consumes. So it reports the faults
of the text in their order, up to the second token behind the last one consumed, and all of them
if the end of the text is no further away. What is written behind that is not looked at.
-/

namespace TinyPascal

set_option autoImplicit false

namespace Scan

/-- What is met on the way is met in the order of the text. -/
theorem faults_ahead_prefix (ending : Item) (items : List Item) (count : Nat) :
    faultsAhead ending items count <+: items.flatMap Item.faults ++ ending.faults := by
  induction items generalizing count with
  | nil =>
      cases count with
      | zero => exact List.nil_prefix
      | succ count => exact List.prefix_rfl
  | cons item items induction =>
      cases count with
      | zero => exact List.nil_prefix
      | succ count =>
          rw [faultsAhead, List.flatMap_cons, List.append_assoc]
          exact (List.prefix_append_right_inj item.faults).mpr (induction _)

theorem faults_ahead_of_length_lt (ending : Item) (items : List Item) (count : Nat)
    (enough : ((items.map Item.token).filter fun token => token.kind != .comment).length < count) :
    faultsAhead ending items count = items.flatMap Item.faults ++ ending.faults := by
  induction items generalizing count with
  | nil =>
      cases count with
      | zero => cases enough
      | succ count => rfl
  | cons item items induction =>
      cases count with
      | zero => cases enough
      | succ count =>
          rw [faultsAhead, List.flatMap_cons, List.append_assoc]
          congr 1
          apply induction
          by_cases isComment : item.token.kind = .comment
          · simpa [isComment] using enough
          · simpa [isComment] using enough

theorem faults_within_prefix (scan : Scan) (count : Nat) :
    scan.faultsWithin count <+: scan.diagnostics :=
  faults_ahead_prefix scan.ending scan.items count

theorem faults_within_of_words_lt {scan : Scan} {count : Nat} (enough : scan.words.length < count) :
    scan.faultsWithin count = scan.diagnostics :=
  faults_ahead_of_length_lt scan.ending scan.items count enough

theorem is_fault_of_mem {source : String} {fault : Diagnostic}
    (member : fault ∈ (ofText source).diagnostics) : fault.IsFault := by
  rcases is_fault_read_from .start source.toList with ⟨faults, endFaults⟩
  rcases List.mem_append.mp member with member | member
  · rcases List.mem_flatMap.mp member with ⟨item, found, met⟩
    exact faults item found fault met
  · exact endFaults fault member

end Scan

theorem Stream.pulled_succ (ending : Arrival) {arrivals rest : List Arrival} {arrival : Arrival}
    {count : Nat} (next : arrivals.drop count = arrival :: rest) :
    pulled ending arrivals (count + 3) =
      pulled ending arrivals (count + 2) ++ ParseState.pullEvents ending rest := by
  induction count generalizing arrivals with
  | zero =>
      rw [List.drop_zero] at next
      rw [next]
      rcases rest with _ | ⟨_, _ | ⟨_, _⟩⟩
      · simp [pulled, ParseState.pullEvents]
      · simp [pulled, ParseState.pullEvents]
      · simp [pulled, ParseState.pullEvents]
  | succ count induction =>
      cases arrivals with
      | nil => cases next
      | cons first others =>
          rw [pulled, pulled, induction next, List.append_assoc]

namespace ParseState

/-- A state of a parse of `stream`. The faults met so far are those up to the second token
behind what was consumed. -/
structure Meets (stream : Stream) (s : ParseState) : Prop where
  ending : s.ending = stream.ending
  unread : s.unread = stream.arrivals.drop s.consumed.length
  faults : s.faults = (Stream.pulled stream.ending stream.arrivals
    (s.consumed.length + 2)).filterMap ParseEvent.fault?
  orderly : s.Orderly

namespace Meets

variable {stream : Stream} {s : ParseState}

theorem advance (meets : s.Meets stream) (more : s.unread ≠ []) : s.advance.Meets stream := by
  rcases List.exists_cons_of_ne_nil more with ⟨arrival, rest, unread⟩
  have follows := follows_advance meets.orderly unread
  have next : stream.arrivals.drop s.consumed.length = arrival :: rest := by
    rw [← meets.unread, unread]
  have count : s.advance.consumed.length = s.consumed.length + 1 := by
    rw [follows.consumed, List.length_append]
    rfl
  constructor
  case ending => rw [follows.ending, meets.ending]
  case unread => rw [unread_advance, meets.unread, count, List.tail_drop]
  case faults =>
    rw [faults_advance unread, meets.faults, meets.ending, count, ← List.filterMap_append,
      ← Stream.pulled_succ stream.ending next]
  case orderly => exact orderly_advance meets.orderly

theorem refuse (meets : s.Meets stream) (problem : SyntacticProblem) :
    (s.refuse problem).Meets stream := by
  constructor
  case ending => exact meets.ending
  case unread =>
    rw [consumed_refuse]
    exact meets.unread
  case faults =>
    rw [consumed_refuse, faults_refuse]
    exact meets.faults
  case orderly => exact ⟨meets.orderly.1, meets.orderly.2⟩

theorem warn (meets : s.Meets stream) (token : Token) (problem : SyntacticProblem) :
    (s.warn token problem).Meets stream := by
  have consumed : (s.warn token problem).consumed = s.consumed :=
    (follows_warn s token problem).consumed.trans (List.append_nil _)
  constructor
  case ending => exact meets.ending
  case unread =>
    rw [consumed]
    exact meets.unread
  case faults =>
    rw [consumed, faults_warn]
    exact meets.faults
  case orderly => exact ⟨meets.orderly.1, meets.orderly.2⟩

theorem lasting (stream : Stream) : Lasting (Meets stream) where
  advance meets more := meets.advance more
  refuse problem meets := meets.refuse problem
  warn token problem meets := meets.warn token problem
  calm meets := ⟨meets.ending, meets.unread, meets.faults, ⟨meets.orderly.1, meets.orderly.2⟩⟩

end Meets

theorem meets_start {stream : Stream} (lexical : stream.Lexical) : (start stream).Meets stream := by
  have nothing := (consumed_start lexical).1
  constructor
  case ending => exact ending_start stream
  case unread => rw [nothing, unread_start, List.length_nil, List.drop_zero]
  case faults =>
    rw [nothing, start_eq, faults, List.reverse_reverse]
    rfl
  case orderly => exact (ready_start lexical).toOrderly

end ParseState

namespace Parse

open ParseState

theorem faults_eq_faults_within (source : String) :
    (ofText source).diagnostics.ofPhase .lexical =
      (Scan.ofText source).faultsWithin ((ofText source).recorder.tokens.length + 2) := by
  have meets : (finalState (.ofText source)).Meets (.ofText source) :=
    (Meets.lasting _).program (fits _) (meets_start (Stream.lexical_of_text source))
  have met : ((Scan.ofText source).faultsWithin
      ((ofText source).recorder.tokens.length + 2)).ofPhase .lexical =
        (Scan.ofText source).faultsWithin ((ofText source).recorder.tokens.length + 2) := by
    apply List.filter_eq_self.mpr
    intro fault member
    have isFault := Scan.is_fault_of_mem ((Scan.faults_within_prefix _ _).subset member)
    simp [isFault.phase]
  have pulled := Stream.diagnostics_pulled (Scan.ofText source).ending []
    (Scan.ofText source).items ((ofText source).recorder.tokens.length + 1)
  rw [← faults_eq, ← met]
  calc (ofText source).events.filterMap ParseEvent.fault?
      = (Stream.pulled (Stream.ofText source).ending (Stream.ofText source).arrivals
          ((ofText source).recorder.tokens.length + 2)).filterMap ParseEvent.fault? := meets.faults
    _ = _ := by
      rw [ParseEvent.filter_map_of_phase ParseEvent.fault_eq_filter]
      exact congrArg (Diagnostics.ofPhase .lexical) pulled

/-- The faults that a parse reports are the faults of the text in their order, up to the second
token behind the last one that is consumed; the end of the text counts as such a token. They
are all faults of the text where the end is no further away. Where there is one, the text
is called erroneous. -/
theorem faults_show_up_to_the_window (source : String) :
    (ofText source).diagnostics.ofPhase .lexical =
        (Scan.ofText source).faultsWithin ((ofText source).recorder.tokens.length + 2) ∧
      (ofText source).diagnostics.ofPhase .lexical <+: (Scan.ofText source).diagnostics ∧
      (meetsEnd source = true →
        (ofText source).diagnostics.ofPhase .lexical = (Scan.ofText source).diagnostics) ∧
      ((Scan.ofText source).faultsWithin ((ofText source).recorder.tokens.length + 2) ≠ [] →
        (ofText source).hadError = true) := by
  rw [faults_eq_faults_within]
  refine ⟨rfl, Scan.faults_within_prefix _ _, ?_, ?_⟩
  · intro meets
    exact Scan.faults_within_of_words_lt (of_decide_eq_true meets)
  · intro some
    rcases List.exists_mem_of_ne_nil _ some with ⟨fault, member⟩
    have isFault := Scan.is_fault_of_mem ((Scan.faults_within_prefix _ _).subset member)
    rw [← faults_eq_faults_within] at member
    rw [had_error_eq_has_errors]
    exact List.any_eq_true.mpr ⟨fault, (List.mem_filter.mp member).1, isFault.is_error⟩

/-- Behind the point a stray brace and a strange symbol are met, because the text ends there. -/
theorem faults_at_the_end_show :
    meetsEnd "program p; begin end. \x7d ?" = true ∧
      ((ofText "program p; begin end. \x7d ?").diagnostics.ofPhase .lexical).length = 2 ∧
      (ofText "program p; begin end. \x7d ?").hadError = true := by
  have meets : meetsEnd "program p; begin end. \x7d ?" = true := by decide +kernel
  rcases faults_show_up_to_the_window "program p; begin end. \x7d ?" with ⟨-, -, all, flagged⟩
  refine ⟨meets, ?_, flagged (by decide +kernel)⟩
  rw [all meets]
  decide +kernel

/-- A strange symbol two words behind the point is a fault of the text, but its parse does not
get that far. -/
theorem fault_behind_the_window_stays_unseen :
    (Scan.ofText "program p; begin end. x y ?").diagnostics =
        [.lexical ⟨1, 27, 26⟩ (.unrecognized '?')] ∧
      (ofText "program p; begin end. x y ?").diagnostics.ofPhase .lexical ≠
        (Scan.ofText "program p; begin end. x y ?").diagnostics ∧
      (ofText "program p; begin end. x y ?").hadError = false := by
  decide +kernel

end Parse

end TinyPascal
