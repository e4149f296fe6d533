import TinyPascal.Proofs.Parallel.Layout
import TinyPascal.Proofs.Reported
import TinyPascal.Proofs.Walk.Mirror

/-!
# From a text to its types, whatever the layout

Texts with the same words go the same way through the parser and the checker, however they are
laid out and commented. Both carry places along, but decide nothing by them.
-/

namespace TinyPascal

set_option autoImplicit false

def Scan.spelled (scan : Scan) : List (Kind × String) :=
  scan.words.map fun word => (word.kind, word.lexeme)

theorem Scan.bare_words (scan : Scan) :
    scan.words.map Token.bare = scan.spelled.map fun word => ⟨word.1, word.2, .start⟩ := by
  rw [spelled, List.map_map]
  rfl

theorem Stream.same_words_of_spelled {first second : String}
    (words : (Scan.ofText first).spelled = (Scan.ofText second).spelled)
    (truncated : (Scan.ofText first).truncated = (Scan.ofText second).truncated) :
    (ofText first).SameWords (ofText second) := by
  have arrivals : ∀ source : String, (ofText source).arrivals.map (fun arrival => arrival.token.bare) =
      (Scan.ofText source).spelled.map fun word => ⟨word.1, word.2, .start⟩ := by
    intro source
    rw [← Scan.bare_words, ← tokens_of_text, List.map_map]
    rfl
  have ending : ∀ source : String, (ofText source).ending.token.bare = .endOfFile .start := by
    intro source
    rcases (lexical_of_text source).ended with ⟨place, ended⟩
    rw [ended]
    rfl
  constructor
  · rw [arrivals, arrivals, words]
  · rw [ending, ending]
  · exact truncated

theorem Diagnostics.messages_shown (found : Diagnostics) :
    messages (found.map Forgetting.places.spot) = found.messages := by
  unfold messages
  rw [List.map_map]
  rfl

namespace Analysis

theorem diagnostics_shown (f : Forgetting) (events : List WalkEvent) :
    (events.map (WalkEvent.shown f)).filterMap WalkEvent.diagnostic? =
      (events.filterMap WalkEvent.diagnostic?).map f.spot := by
  have each : ∀ event : WalkEvent,
      (event.shown f).diagnostic? = event.diagnostic?.map f.spot := by
    intro event
    cases event <;> rfl
  rw [List.filterMap_map, List.map_filterMap]
  congr
  funext event
  exact each event

/-- The checker finds the same in trees that differ only in places, and fills in the same
types. -/
theorem alike_of_bare {first second : Program} (alike : first.bare = second.bare) :
    (ofProgram first).diagnostics.messages = (ofProgram second).diagnostics.messages ∧
      (ofProgram first).program.bare = (ofProgram second).program.bare := by
  have shown : first.shown .places = second.shown .places := by
    rw [Program.shown_places, Program.shown_places]
    exact alike
  rcases alike_of_shown .places shown with ⟨programs, events⟩
  rw [Program.shown_places, Program.shown_places] at programs
  have found := congrArg (List.filterMap WalkEvent.diagnostic?) events
  rw [diagnostics_shown, diagnostics_shown] at found
  constructor
  · rw [← Diagnostics.messages_shown (ofProgram first).diagnostics, diagnostics, found]
    exact Diagnostics.messages_shown _
  · exact programs

end Analysis

namespace Parse

/-- Two texts with the same words, of which both or neither end inside a comment, are parsed into
trees that differ only in places, with the same remarks on their grammar, whether they are programs
or not. The checker has the same messages about both trees and fills the same types into them. -/
theorem layout_decides_nothing (first second : String)
    (words : (Scan.ofText first).spelled = (Scan.ofText second).spelled)
    (truncated : (Scan.ofText first).truncated = (Scan.ofText second).truncated) :
    (ofText first).program.bare = (ofText second).program.bare ∧
    ((ofText first).diagnostics.ofPhase .syntactic).map (fun found => (found.severity, found.message)) =
      ((ofText second).diagnostics.ofPhase .syntactic).map
        (fun found => (found.severity, found.message)) ∧
    (Analysis.ofProgram (ofText first).program).diagnostics.messages =
      (Analysis.ofProgram (ofText second).program).diagnostics.messages ∧
    (Analysis.ofProgram (ofText first).program).program.bare =
      (Analysis.ofProgram (ofText second).program).program.bare := by
  have same := Stream.same_words_of_spelled words truncated
  rcases alike_of_same_words same (Stream.lexical_of_text first) (Stream.lexical_of_text second) with
    ⟨programs, -, gists⟩
  change (ofText first).program.bare = (ofText second).program.bare at programs
  change (ofText first).remarks.map Diagnostic.gist = (ofText second).remarks.map Diagnostic.gist
    at gists
  rw [remarks_eq, remarks_eq] at gists
  have remarks := congrArg
    (List.map fun gist : Severity × Problem => (gist.1, gist.2.message)) gists
  rw [List.map_map, List.map_map] at remarks
  rcases Analysis.alike_of_bare programs with ⟨messages, types⟩
  exact ⟨programs, remarks, messages, types⟩

/-- A broken text, in one line and spread out with comments: the missing operand is told of in
another place, but in the same words, and so is what the checker finds. -/
theorem broken_text_spread_out :
    ∃ first second : String, (Scan.ofText first).spelled = (Scan.ofText second).spelled ∧
      (ofText first).diagnostics ≠ (ofText second).diagnostics ∧
      ((ofText second).diagnostics.ofPhase .syntactic).map
        (fun found => (found.severity, found.message)) = [(.error, "Expected factor, got ';'.")] ∧
      (Analysis.ofProgram (ofText second).program).diagnostics.messages =
        ["y was not declared"] ∧
      (Analysis.ofProgram (ofText first).program).program.bare =
        (Analysis.ofProgram (ofText second).program).program.bare := by
  let first := "program p; begin x := ; y := 1 end."
  let second := "program p;\nbegin\n  x := ; \x7b nothing \x7d\n  y := 1\nend."
  have words : (Scan.ofText first).spelled = (Scan.ofText second).spelled := by decide +kernel
  have truncated : (Scan.ofText first).truncated = (Scan.ofText second).truncated := by
    decide +kernel
  have places : (ofText first).diagnostics ≠ (ofText second).diagnostics := by decide +kernel
  rcases layout_decides_nothing first second words truncated with ⟨-, remarks, messages, types⟩
  refine ⟨first, second, words, places, ?_, ?_, types⟩
  · rw [← remarks]
    decide +kernel
  · rw [← messages]
    decide +kernel

end Parse

end TinyPascal
