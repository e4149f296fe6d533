import TinyPascal.Proofs.Phrase.Program
import TinyPascal.Proofs.Window
import TinyPascal.Recorder

/-!
# What a whole parse leaves behind

A parse of a stream does what the script of a program lists, if there is one.
-/

namespace TinyPascal

set_option autoImplicit false

def Stream.tokens (stream : Stream) : List Token :=
  stream.arrivals.map Arrival.token ++ [stream.ending.token]

theorem ParseState.fits (s : ParseState) : s.unread.length < s.unread.length + 1 :=
  Nat.lt_succ_self _

namespace Parse

open Phrase ParseState

def remarks (parse : Parse) : Diagnostics := parse.events.filterMap ParseEvent.remark?

def lastState (s : ParseState) : ParseState :=
  ((Step.program _ : Step (s.unread.length + 1) Program) s s.fits).state

def finalState (stream : Stream) : ParseState := lastState (start stream)

/-- The faults that show by the time `script` is done. -/
def faultyWithin (stream : Stream) (script : Script) : Bool :=
  faulty (Stream.pulled stream.ending stream.arrivals (script.tokens.length + 2))

/-- What is left of a parse that did what `script` lists. -/
structure Performs (stream : Stream) (script : Script) : Prop where
  consumed : (ofStream stream).recorder.tokens = script.tokens
  remarks : (ofStream stream).remarks = script.remarks
  hadError : (ofStream stream).hadError =
    (script.remarks.any Diagnostic.isError || faultyWithin stream script)
  diagnostics : faultyWithin stream script = false →
    (ofStream stream).diagnostics = script.remarks

variable {stream : Stream} {script : Script} {rest : List Token}

theorem performs_of_follows (lexical : stream.Lexical)
    (follows : (start stream).Follows script (finalState stream)) : Performs stream script := by
  obtain ⟨noneConsumed, noneRemarked⟩ := consumed_start lexical
  have shown := had_error_start stream script.tokens.length
  constructor
  · have consumed := follows.consumed
    rw [noneConsumed, List.nil_append] at consumed
    exact consumed
  · have remarked := follows.remarks
    rw [noneRemarked, List.nil_append] at remarked
    exact remarked
  · have failed := follows.hadError
    rw [ending_start, unread_start, Bool.or_right_comm, shown, Bool.or_comm] at failed
    exact failed
  · intro quiet
    rw [faultyWithin, ← shown, Bool.or_eq_false_iff] at quiet
    obtain ⟨quietStart, quietRest⟩ := quiet
    have reported := follows.diagnostics (by rw [ending_start, unread_start]; exact quietRest)
    have noneReported : (start stream).diagnostics = [] := by
      rw [start_eq] at quietStart ⊢
      simpa [ParseState.diagnostics] using faulty_eq_false_iff.mp quietStart
    rw [noneReported, List.nil_append] at reported
    exact reported

theorem tokens_start (stream : Stream) : (start stream).tokens = stream.tokens := by
  rw [start_eq]
  rfl

theorem sound (lexical : stream.Lexical) (clean : (ofStream stream).hadError = false) :
    ∃ script rest, WholeProgram unbroken (stream.arrivals.length + 1) script
        (rest ++ [stream.ending.token]) (ofStream stream).program ∧
      stream.tokens = script.tokens ++ (rest ++ [stream.ending.token]) ∧ Performs stream script := by
  obtain ⟨script, read, follows⟩ : ∃ script,
      WholeProgram unbroken ((start stream).unread.length + 1) script (finalState stream).tokens
        (ofStream stream).program ∧ (start stream).Follows script (finalState stream) :=
    (Step.program_realizes tolerated_unbroken _).sound (start stream) (Nat.lt_succ_self _)
      (ready_start lexical) clean
  have left : (finalState stream).tokens =
      (finalState stream).unread.map Arrival.token ++ [stream.ending.token] := by
    rw [ParseState.tokens, follows.ending, ending_start]
  rw [unread_start, left] at read
  refine ⟨script, _, read, ?_, performs_of_follows lexical follows⟩
  rw [← tokens_start, follows.tokens, left]

theorem sound_of_text {source : String} (clean : (ofText source).hadError = false) :
    ∃ n script rest, WholeProgram unbroken n script (rest ++ [(Stream.ofText source).ending.token])
        (ofText source).program ∧
      (Scan.ofText source).words = script.tokens ++ rest ∧ Performs (.ofText source) script ∧
      faultyWithin (.ofText source) script = false := by
  obtain ⟨script, rest, read, offered, performs⟩ := sound (Stream.lexical_of_text source) clean
  rw [Stream.tokens, ← List.append_assoc] at offered
  have words := List.append_cancel_right offered
  rw [Stream.tokens_of_text] at words
  have quiet := performs.hadError.symm.trans clean
  rw [Bool.or_eq_false_iff] at quiet
  exact ⟨_, script, rest, read, words, performs, quiet.2⟩

theorem complete {broken : Breakage} {value : Program} (tolerated : Tolerated broken)
    (lexical : stream.Lexical) (offered : stream.tokens = script.tokens ++ rest)
    (read : WholeProgram broken (stream.arrivals.length + 1) script rest value) :
    (ofStream stream).program = value ∧ Performs stream script := by
  rw [← unread_start] at read
  rw [← tokens_start] at offered
  obtain ⟨same, follows⟩ := (Step.program_realizes tolerated _).complete (start stream)
    (Nat.lt_succ_self _) script rest value (ready_start lexical) offered read
  exact ⟨same, performs_of_follows lexical follows⟩

end Parse

end TinyPascal
