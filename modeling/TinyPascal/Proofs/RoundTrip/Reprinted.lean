import TinyPascal.Proofs.RoundTrip.PrintedProgram
import TinyPascal.Proofs.RoundTrip.Recorded

/-!
# Reading the printed text

The text of a tree that was read without error is read into the same tree.
-/

namespace TinyPascal

set_option autoImplicit false

theorem messages_of_gists {found : Diagnostics} {gists : List (Severity × Problem)}
    (same : found.map Diagnostic.gist = gists) :
    found.messages = gists.map fun gist => gist.2.message := by
  rw [← same, List.map_map]
  rfl

namespace Parse

/-- Printing a tree that was read without error and reading it again changes
nothing but places. No error shows, and all that is said the second time is one
warning for each call inside an expression whose parentheses are empty. -/
theorem printed_text_reads_back (source : String) (clean : (ofText source).hadError = false) :
    (ofText (ofText source).program.text).hadError = false ∧
      (ofText (ofText source).program.text).program.bare = (ofText source).program.bare ∧
      (ofText (ofText source).program.text).diagnostics.map Diagnostic.gist =
        List.replicate (ofText source).program.emptyCalls emptyParentheses ∧
      (ofText (ofText source).program.text).diagnostics.messages =
        List.replicate (ofText source).program.emptyCalls
          "Procedure calls without args are made without '()'" := by
  obtain ⟨n, script, rest, read, words, -, -⟩ := sound_of_text clean
  have written : script.Written := by
    intro token member
    exact (written_of_program read words token member).1
  obtain ⟨again, read, printed⟩ := Phrase.reprints_program read written
  have spells := printed.spells [] [] Lexeme.before_nil .nil
  rw [List.append_nil, List.append_nil] at spells
  obtain ⟨accepted, -, programs, gists⟩ := reread read spells
  rw [printed.remarks] at gists
  refine ⟨accepted, programs, gists, ?_⟩
  rw [messages_of_gists gists, List.map_replicate]
  rfl

/-- Of the three pairs of empty parentheses only the one inside the expression is
printed and spoken of. -/
theorem printed_text_reads_back_with_empty_calls :
    ∃ source : String, (ofText source).hadError = false ∧
      (ofText (ofText source).program.text).hadError = false ∧
      (ofText (ofText source).program.text).diagnostics.messages =
        ["Procedure calls without args are made without '()'"] := by
  have clean : (ofText
      "program p; procedure q(); begin end begin x := f() + (1 - y); q(); end. ;").hadError =
      false := by decide +kernel
  have calls : (ofText
      "program p; procedure q(); begin end begin x := f() + (1 - y); q(); end. ;").program.emptyCalls =
      1 := by decide +kernel
  obtain ⟨accepted, -, -, messages⟩ := printed_text_reads_back _ clean
  rw [calls] at messages
  exact ⟨_, clean, accepted, messages⟩

end Parse

end TinyPascal
