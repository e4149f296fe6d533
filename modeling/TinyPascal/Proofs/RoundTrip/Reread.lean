import TinyPascal.Proofs.Acceptance
import TinyPascal.Proofs.Parallel.Layout
import TinyPascal.Proofs.Phrase.Locality
import TinyPascal.Proofs.Spelling.Scan

/-!
# Reading a text that spells a program

A program that was read once is read again from every text that spells the same
words and nothing else, whatever stood behind it the first time.
-/

namespace TinyPascal

set_option autoImplicit false

theorem kinds_of_bare {tokens others : List Token}
    (same : tokens.map Token.bare = others.map Token.bare) :
    tokens.map Token.kind = others.map Token.kind := by
  have through : ∀ tokens : List Token, tokens.map Token.kind =
      (tokens.map Token.bare).map Token.kind := by
    intro tokens
    rw [List.map_map]
    rfl
  exact (through tokens).trans ((congrArg (List.map Token.kind) same).trans (through others).symm)

theorem Grammar.is_real_of_derived {tokens : List Token}
    (derived : Derived .program (tokens.map Token.kind)) :
    ∀ token ∈ tokens, isReal token.kind = true := by
  intro token member
  exact derived.is_real (by simp [Ebnf.mentions]) token.kind (List.mem_map_of_mem member)

namespace Stream

/-- The stream of some tokens, with neither comments nor faults between them. -/
def ofTokens (tokens : List Token) (truncated : Bool) : Stream :=
  ⟨tokens.map fun token => ⟨token, []⟩, ⟨.endOfFile .start, []⟩, truncated⟩

theorem lexical_of_tokens (tokens : List Token) (truncated : Bool) :
    (ofTokens tokens truncated).Lexical where
  events := by
    intro arrival member
    obtain ⟨token, -, rfl⟩ := List.mem_map.mp member
    intro event found
    cases found
  endEvents := by
    intro event found
    cases found
  ended := ⟨.start, rfl⟩

theorem tokens_of_tokens (tokens : List Token) (truncated : Bool) :
    (ofTokens tokens truncated).tokens = tokens ++ [.endOfFile .start] := by
  simp only [Stream.tokens, ofTokens, List.map_map]
  exact congrArg (· ++ _) (List.map_id tokens)

theorem same_words_of_tokens {source : String} {tokens : List Token}
    (words : (Scan.ofText source).words.map Token.bare = tokens.map Token.bare) :
    (ofTokens tokens (ofText source).truncated).SameWords (ofText source) := by
  refine ⟨?_, ?_, rfl⟩
  · rw [← tokens_of_text, List.map_map] at words
    simp only [ofTokens, List.map_map]
    exact words.symm
  · obtain ⟨place, ended⟩ := (lexical_of_text source).ended
    rw [ended]
    rfl

end Stream

namespace Parse

open Phrase

theorem diagnostics_of_clean {source : String} (clean : (ofText source).hadError = false) :
    (ofText source).diagnostics = (ofText source).remarks := by
  obtain ⟨n, script, rest, -, -, performs, quiet⟩ := sound_of_text clean
  exact (performs.diagnostics quiet).trans performs.remarks.symm

theorem reads_words {text : String} {broken : Breakage} (tolerated : Tolerated broken)
    {script : Script} {rest : List Token} {value : Program}
    (read : WholeProgram broken ((script.tokens ++ rest).length + 1) script
      (rest ++ [.endOfFile .start]) value)
    (words : (Scan.ofText text).words.map Token.bare = (script.tokens ++ rest).map Token.bare) :
    (ofText text).program.bare = value.bare ∧
      (ofText text).recorder.tokens.map Token.bare = script.tokens.map Token.bare ∧
      (ofText text).remarks.map Diagnostic.gist = script.remarks.map Diagnostic.gist := by
  have same := Stream.same_words_of_tokens words
  have lexical := Stream.lexical_of_tokens (script.tokens ++ rest) (Stream.ofText text).truncated
  have offered := Stream.tokens_of_tokens (script.tokens ++ rest) (Stream.ofText text).truncated
  rw [List.append_assoc] at offered
  have sized : (Stream.ofTokens (script.tokens ++ rest) (Stream.ofText text).truncated).arrivals.length =
      (script.tokens ++ rest).length := List.length_map _
  rw [← sized] at read
  obtain ⟨rfl, performs⟩ := complete tolerated lexical offered read
  obtain ⟨programs, consumed, remarks⟩ :=
    alike_of_same_words same lexical (Stream.lexical_of_text text)
  rw [performs.consumed] at consumed
  rw [performs.remarks] at remarks
  exact ⟨programs.symm, consumed.symm, remarks.symm⟩

theorem reread {text : String} {n : Nat} {script : Script} {rest : List Token} {value : Program}
    (read : WholeProgram unbroken n script rest value)
    (spells : Spells text.toList (script.tokens.map Token.bare)) :
    (ofText text).hadError = false ∧
      (ofText text).recorder.tokens.map Token.bare = script.tokens.map Token.bare ∧
      (ofText text).program.bare = value.bare ∧
      (ofText text).diagnostics.map Diagnostic.gist = script.remarks.map Diagnostic.gist := by
  have derived := Grammar.program_derived read
  have noComment : ∀ word ∈ script.tokens.map Token.bare, word.kind ≠ .comment := by
    rintro _ member isComment
    obtain ⟨token, found, rfl⟩ := List.mem_map.mp member
    have real := Grammar.is_real_of_derived derived token found
    rw [← token.kind_bare, isComment] at real
    cases real
  have words := spells.words_eq noComment
  have clean : (ofText text).hadError = false := by
    refine clean_of_begins_with ⟨List.prefix_rfl, ?_⟩ (spells.faults_within_eq_nil _)
    rw [kinds_of_bare words]
    exact derived
  have again : WholeProgram unbroken ((script.tokens ++ []).length + 1) script
      ([] ++ [.endOfFile .start]) value := by
    refine program_before_anything read ?_ _
    simp
  obtain ⟨programs, consumed, remarks⟩ :=
    reads_words tolerated_unbroken again (by rw [List.append_nil]; exact words)
  rw [diagnostics_of_clean clean]
  exact ⟨clean, consumed, programs, remarks⟩

end Parse

end TinyPascal
