import TinyPascal.Proofs.Reported
import TinyPascal.Proofs.Spelling.Places

/-!
# Tokens in the order of the text

Lines and columns order the places of a text: every further character leads to a later
place. The tokens of a stream stand in this order, each at a place of its own, and the
end-of-file mark stands behind them all.
-/

namespace TinyPascal

set_option autoImplicit false

namespace Position

/-- Earlier by line, or by column within one line. -/
def Precedes (first second : Position) : Prop :=
  first.line < second.line ∨ first.line = second.line ∧ first.column < second.column

instance (first second : Position) : Decidable (first.Precedes second) :=
  inferInstanceAs (Decidable (_ ∨ _))

theorem Precedes.trans {first second third : Position} (front : first.Precedes second)
    (back : second.Precedes third) : first.Precedes third := by
  unfold Precedes at *
  omega

theorem precedes_step (place : Position) (c : Char) : place.Precedes (place.step c) := by
  unfold step
  split
  · exact .inl (Nat.lt_succ_self _)
  · exact .inr ⟨rfl, Nat.lt_succ_self _⟩

theorem precedes_advance (place : Position) {text : List Char} (nonempty : text ≠ []) :
    place.Precedes (place.advance text) := by
  induction text generalizing place with
  | nil => exact absurd rfl nonempty
  | cons c others induction =>
      rw [advance_cons]
      have first := place.precedes_step c
      cases others with
      | nil => exact first
      | cons d others => exact first.trans (induction _ (List.cons_ne_nil d others))

theorem behind_precedes (passed : List Char) {more : List Char} (nonempty : more ≠ []) :
    (behind passed).Precedes (behind (passed ++ more)) := by
  rw [← advance_behind]
  exact precedes_advance _ nonempty

end Position

def Token.Precedes (first second : Token) : Prop := first.position.Precedes second.position

def Diagnostic.Precedes (first second : Diagnostic) : Prop :=
  first.line < second.line ∨ first.line = second.line ∧ first.column < second.column

theorem Token.Precedes.not_is_at {first second : Token} (precedes : first.Precedes second)
    {severity : Severity} {problem : Problem} :
    (Diagnostic.about severity first problem).isAt second = false := by
  unfold Token.Precedes Position.Precedes at precedes
  unfold Diagnostic.about Diagnostic.isAt Token.line Token.column
  simp only [Bool.and_eq_false_iff, decide_eq_false_iff_not]
  omega

namespace Laid

variable {truncated : Bool} {final passed rest : List Char} {tokens : List Token}

theorem final_eq (laid : Laid truncated final passed tokens rest) : ∃ more, final = passed ++ more := by
  induction laid with
  | ending => exact ⟨[], (List.append_nil _).symm⟩
  | @token passed gap text _ _ _ _ _ _ _ _ _ induction =>
      rcases induction with ⟨more, whole⟩
      exact ⟨gap ++ text ++ more, by simp [whole]⟩

theorem position_eq (laid : Laid truncated final passed tokens rest) :
    ∀ token ∈ tokens, ∃ more, token.position = .behind (passed ++ more) := by
  induction laid with
  | ending => exact List.forall_mem_nil _
  | @token passed gap text _ _ _ _ _ _ position _ _ induction =>
      intro token member
      rcases List.mem_cons.mp member with rfl | member
      · exact ⟨gap, position⟩
      · rcases induction token member with ⟨more, place⟩
        exact ⟨gap ++ text ++ more, by simp [place]⟩

theorem ordered (laid : Laid truncated final passed tokens rest) :
    (tokens ++ [Token.endOfFile (.behind final)]).Pairwise Token.Precedes := by
  induction laid with
  | ending => exact List.pairwise_singleton _ _
  | @token passed gap text _ head tokens _ nonempty _ position _ others induction =>
      -- Whatever stands behind the text of a token stands behind its place.
      have beyond : ∀ more : List Char,
          head.position.Precedes (.behind (passed ++ gap ++ text ++ more)) := by
        intro more
        rw [position, List.append_assoc (passed ++ gap)]
        exact Position.behind_precedes _ (List.append_ne_nil_of_left_ne_nil nonempty more)
      rw [List.cons_append]
      apply List.Pairwise.cons _ induction
      intro later member
      rcases List.mem_append.mp member with member | member
      · rcases others.position_eq later member with ⟨more, place⟩
        rw [Token.Precedes, place]
        exact beyond more
      · rcases others.final_eq with ⟨more, whole⟩
        rw [List.mem_singleton.mp member, whole]
        exact beyond more

end Laid

/-- The tokens of the grammar stand in order, and the end of the text behind them. -/
theorem Stream.ordered (source : String) : (ofText source).tokens.Pairwise Token.Precedes := by
  rcases Scan.laid_read_from [] source.toList with ⟨final, laid, ending⟩
  have last : (ofText source).ending.token = .endOfFile (.behind final) :=
    (tokens_gather _ _ _).2.trans ending
  rw [Stream.tokens, tokens_of_text, last]
  exact List.Pairwise.sublist (List.Sublist.append_right List.filter_sublist _) laid.ordered

end TinyPascal
