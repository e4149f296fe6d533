import TinyPascal.Proofs.RoundTrip.Reread
import TinyPascal.Proofs.Spelling.Strange

/-!
# Reading the recorded text

The consumed tokens with single blanks between them are a text that is read just
like the one they came from.
-/

namespace TinyPascal

set_option autoImplicit false

theorem spells_joined {tokens : List Token} (written : ∀ token ∈ tokens, token.IsWritten) :
    Spells (" ".intercalate (tokens.map Token.lexeme)).toList (tokens.map Token.bare) := by
  intro here
  apply (shows_joined (fun token member => (written token member).is_detached) here).finds
  intro word listed
  rcases List.mem_map.mp listed with ⟨token, member, rfl⟩
  exact (written token member).known

namespace Parse

open Phrase

/-- The tokens of a program are lexemes of the language, and none is an
end-of-file mark. -/
theorem written_of_program {source : String} {n : Nat} {script : Script} {rest others : List Token}
    {value : Program} (read : WholeProgram unbroken n script rest value)
    (words : (Scan.ofText source).words = script.tokens ++ others) :
    ∀ token ∈ script.tokens, token.IsWritten ∧ token.kind ≠ .eof := by
  intro token member
  have real := Grammar.is_real_of_derived (Grammar.program_derived read) token member
  constructor
  · apply @Scan.written_of_words source token
    · rw [words]
      exact List.mem_append_left _ member
    · intro isUnknown
      rw [isUnknown] at real
      cases real
  · intro isEnd
    rw [isEnd] at real
    cases real

/-- Recording a parse without error and reading the record again changes nothing
but places: no error shows, the same words are consumed, the tree is the same, and
the same warnings are given. -/
theorem recorded_text_reads_back (source : String) (clean : (ofText source).hadError = false) :
    (ofText (ofText source).recorder.sourceText).hadError = false ∧
      (ofText (ofText source).recorder.sourceText).recorder.tokens.map Token.bare =
        (ofText source).recorder.tokens.map Token.bare ∧
      (ofText (ofText source).recorder.sourceText).program.bare = (ofText source).program.bare ∧
      (ofText (ofText source).recorder.sourceText).diagnostics.map Diagnostic.gist =
        (ofText source).diagnostics.map Diagnostic.gist := by
  obtain ⟨n, script, rest, read, words, performs, quiet⟩ := sound_of_text clean
  have written := written_of_program read words
  have consumed : (ofText source).recorder.tokens = script.tokens := performs.consumed
  have reported : (ofText source).diagnostics = script.remarks := performs.diagnostics quiet
  have noEnd : script.tokens.filter (fun token => token.kind != .eof) = script.tokens := by
    apply List.filter_eq_self.mpr
    intro token member
    simpa using (written token member).2
  have spells : Spells (ofText source).recorder.sourceText.toList (script.tokens.map Token.bare) := by
    rw [Recorder.sourceText, consumed, noEnd]
    exact spells_joined fun token member => (written token member).1
  rw [consumed, reported]
  exact reread read spells

/-- Comments, odd layout and whatever stands behind the point are not recorded. -/
theorem recorded_text_reads_back_without_comments :
    ∃ source : String, (ofText source).hadError = false ∧
      (ofText (ofText source).recorder.sourceText).hadError = false ∧
      (ofText (ofText source).recorder.sourceText).recorder.tokens.map Token.bare =
        (ofText source).recorder.tokens.map Token.bare := by
  have clean : (ofText
      "program p;\x7b c \x7dprocedure q();begin end begin x:=f()-1; q();end. end ;").hadError =
      false := by decide +kernel
  obtain ⟨accepted, consumed, -, -⟩ := recorded_text_reads_back _ clean
  exact ⟨_, clean, accepted, consumed⟩

end Parse

end TinyPascal
