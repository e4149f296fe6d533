import TinyPascal.Proofs.Recording.Delivery
import TinyPascal.Proofs.Shape.Programs
import TinyPascal.Proofs.Spelling.Places
import TinyPascal.Proofs.Walk.Spots

/-!
# What a parse makes of a text

Whatever a text lacks, the tree has the shape of the grammar. It holds tokens that were consumed,
each at most once and in their order, and nothing else but stand-ins.
-/

namespace TinyPascal

set_option autoImplicit false

theorem Scan.written_of_mem_words {source : String} {token : Token}
    (member : token ∈ (ofText source).words) : token.lexeme ≠ "" := by
  rcases laid_read_from [] source.toList with ⟨final, laid, _⟩
  rcases List.append_of_mem (List.mem_of_mem_filter member) with ⟨earlier, later, split⟩
  rcases laid.token_at split with ⟨_, _, _, _, _, _, written, _⟩
  exact written

namespace Parse

open ParseState

variable (source : String)

theorem made_of_text : (ofText source).program.Shaped ∧
    ((ofText source).program.tokensBy Token.present).Sublist (ofText source).recorder.tokens := by
  rcases Step.makes_program _ _ (start (.ofText source)) (fits _) rfl with
    ⟨read, split, shaped, kept⟩
  have delivered := (delivers_of_text source).tokens
  rw [← unread_start] at delivered
  have same : read = (ofText source).recorder.tokens :=
    List.append_cancel_right (split.symm.trans delivered.symm)
  rw [same] at kept
  exact ⟨shaped, kept⟩

/-- The tree of any text, however broken, has the shape of the grammar: expressions bind as their
operators do, no choice takes an `else` from one inside it, calls have arguments, names are
declared with a type, and only the whole program starts with `program`. No types are filled in. -/
theorem tree_has_the_shape_of_the_grammar : (ofText source).program.Shaped :=
  (made_of_text source).1

/-- The tree of any text holds consumed tokens in their order, each at most once, besides
stand-ins. So all that an analysis of the tree reports is found at a consumed token of it. -/
theorem tree_is_made_of_consumed_tokens :
    (ofText source).program.realTokens.Sublist (ofText source).recorder.tokens ∧
    ∀ found ∈ (Analysis.ofProgram (ofText source).program).diagnostics,
      ∃ token ∈ (ofText source).program.realTokens,
        token ∈ (ofText source).recorder.tokens ∧ token.lexeme ≠ "" ∧
          found.line = token.line ∧ found.column = token.column := by
  have kept := (made_of_text source).2
  constructor
  · exact (Program.real_tokens_sublist _).trans kept
  · intro found reported
    rcases Analysis.finding_of_reported reported with ⟨token, listed, problem, rfl⟩
    have consumed := kept.subset listed
    have written := Scan.written_of_mem_words ((recorded_tokens_first source).subset consumed)
    exact ⟨token, Program.mem_real_tokens listed written, consumed, written, rfl, rfl⟩

end Parse

end TinyPascal
