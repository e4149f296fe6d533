import TinyPascal.Proofs.Grammar.Readable.Program
import TinyPascal.Proofs.Outcome
import TinyPascal.Proofs.Phrase.Mild

/-!
# Which texts are accepted

The parser accepts exactly its grammar: no error shows if and only if some of the
tokens, from the first one on, form a program and no fault is met up to two
tokens behind it. Those tokens are the ones that are consumed, so no other
beginning of the text forms a program as well.
-/

namespace TinyPascal

set_option autoImplicit false

namespace Scan

/-- The first tokens of a text, if they form a program. -/
def BeginsWith (scan : Scan) (text : List Token) : Prop :=
  text <+: scan.words ∧ Grammar.Derives (.ref .program) (text.map Token.kind)

end Scan

namespace Parse

open Phrase ParseState

theorem performs_of_begins_with {source : String} {text : List Token}
    (begins : (Scan.ofText source).BeginsWith text) :
    ∃ script, script.tokens = text ∧ script.Mild ∧ Performs (.ofText source) script := by
  obtain ⟨⟨others, whole⟩, derived⟩ := begins
  have words := Stream.tokens_of_text source
  rw [← whole] at words
  have short : text.length < (Stream.ofText source).arrivals.length + 1 := by
    have lengths := congrArg List.length words
    rw [List.length_map, List.length_append] at lengths
    omega
  obtain ⟨script, value, read, rfl⟩ := Grammar.program_readable derived short
    (others ++ [(Stream.ofText source).ending.token])
  have offered : (Stream.ofText source).tokens =
      script.tokens ++ (others ++ [(Stream.ofText source).ending.token]) := by
    rw [Stream.tokens, words, List.append_assoc]
  obtain ⟨-, performs⟩ :=
    complete tolerated_unbroken (Stream.lexical_of_text source) offered read
  exact ⟨script, rfl, mild_program _ _ _ _ read, performs⟩

theorem begins_with_of_clean {source : String} (clean : (ofText source).hadError = false) :
    ∃ text, (Scan.ofText source).BeginsWith text ∧
      (Scan.ofText source).faultsWithin (text.length + 2) = [] := by
  obtain ⟨n, script, rest, read, words, -, quiet⟩ := sound_of_text clean
  exact ⟨script.tokens, ⟨⟨rest, words.symm⟩, Grammar.program_derived read⟩,
    (faulty_of_text source _).mp quiet⟩

theorem clean_of_begins_with {source : String} {text : List Token}
    (begins : (Scan.ofText source).BeginsWith text)
    (quiet : (Scan.ofText source).faultsWithin (text.length + 2) = []) :
    (ofText source).hadError = false := by
  obtain ⟨script, rfl, mild, performs⟩ := performs_of_begins_with begins
  have shown : (ofText source).hadError =
      (script.remarks.any Diagnostic.isError || faultyWithin (.ofText source) script) :=
    performs.hadError
  rw [shown, mild.no_error, Bool.false_or]
  exact (faulty_of_text source _).mpr quiet

/-- A text is accepted if and only if it begins with a program of the grammar and
no fault is met up to two tokens behind it. That beginning is unique, and its
tokens are the ones that are consumed. -/
theorem accepts_exactly_the_grammar (source : String) :
    ((ofText source).hadError = false ↔
      ∃ text, (Scan.ofText source).BeginsWith text ∧
        (Scan.ofText source).faultsWithin (text.length + 2) = []) ∧
    (∀ text other, (Scan.ofText source).BeginsWith text → (Scan.ofText source).BeginsWith other →
      text = other) ∧
    (∀ text, (Scan.ofText source).BeginsWith text → (ofText source).recorder.tokens = text) := by
  have consumed : ∀ text, (Scan.ofText source).BeginsWith text →
      (ofText source).recorder.tokens = text := by
    intro text begins
    obtain ⟨script, rfl, -, performs⟩ := performs_of_begins_with begins
    exact performs.consumed
  refine ⟨⟨begins_with_of_clean, ?_⟩, ?_, consumed⟩
  · rintro ⟨text, begins, quiet⟩
    exact clean_of_begins_with begins quiet
  · intro text other begins otherBegins
    exact (consumed text begins).symm.trans (consumed other otherBegins)

end Parse

end TinyPascal
