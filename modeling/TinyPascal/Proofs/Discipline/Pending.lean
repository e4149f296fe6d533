import TinyPascal.Proofs.Spelling.Order

/-!
# Errors and the tokens they are about

An error about a token is pending until that token is consumed. Whether a parse reports a
further error only when nothing is pending can be read off its events, which are listed
here with the latest first.
-/

namespace TinyPascal

set_option autoImplicit false

namespace Diagnostic

def isSyntaxError (found : Diagnostic) : Bool := found.phase = .syntactic && found.isError

/-- A syntax error about a token, as opposed to one at the end of the text, where `mark`
stands. -/
def blames (mark : Token) (found : Diagnostic) : Bool := found.isSyntaxError && !found.isAt mark

def Before (token : Token) (found : Diagnostic) : Prop :=
  found.line < token.line ∨ found.line = token.line ∧ found.column < token.column

def UpTo (token : Token) (found : Diagnostic) : Prop :=
  found.line < token.line ∨ found.line = token.line ∧ found.column ≤ token.column

variable {found : Diagnostic} {token later : Token}

theorem UpTo.before (upTo : found.UpTo token) (precedes : token.Precedes later) :
    found.Before later := by
  unfold UpTo at upTo
  unfold Token.Precedes Position.Precedes at precedes
  unfold Before
  unfold Token.line Token.column at *
  omega

theorem Before.up_to (before : found.Before token) : found.UpTo token := by
  unfold Before at before
  unfold UpTo
  omega

theorem not_after_about {severity : Severity} {problem : Problem} (upTo : found.UpTo token) :
    found.notAfter (.about severity token problem) = true := by
  rw [notAfter, Bool.or_eq_true, Bool.and_eq_true]
  exact upTo.imp decide_eq_true (And.imp decide_eq_true decide_eq_true)

theorem up_to_about {severity : Severity} {problem : Problem} :
    (about severity token problem).UpTo token :=
  .inr ⟨rfl, Nat.le_refl _⟩

theorem blames_warning (mark token : Token) (problem : SyntacticProblem) :
    (about .warning token (.syntactic problem)).blames mark = false := rfl

end Diagnostic

/-- The errors about tokens that have not been consumed since. -/
def pending (mark : Token) : List ParseEvent → Diagnostics
  | [] => []
  | .reported found :: earlier =>
      if found.blames mark then found :: pending mark earlier else pending mark earlier
  | .consumed token :: earlier => (pending mark earlier).filter fun found => !found.isAt token
  | _ :: earlier => pending mark earlier

/-- Whenever a syntax error was reported, nothing was pending. -/
def Answered (mark : Token) : List ParseEvent → Prop
  | [] => True
  | .reported found :: earlier =>
      (found.isSyntaxError = true → pending mark earlier = []) ∧ Answered mark earlier
  | _ :: earlier => Answered mark earlier

section Events

variable {mark : Token} {found : Diagnostic} {events earlier : List ParseEvent}

theorem not_syntax_error_of_lexical (lexical : (ParseEvent.reported found).IsLexical) :
    found.isSyntaxError = false := by
  have silent := lexical.2
  simp only [ParseEvent.remark?] at silent
  split at silent
  · cases silent
  · next other => simp [Diagnostic.isSyntaxError, other]

theorem pending_lexical (lexical : ∀ event ∈ events, event.IsLexical) :
    pending mark (events ++ earlier) = pending mark earlier := by
  induction events with
  | nil => rfl
  | cons event others induction =>
      have rest := induction fun other member => lexical other (List.mem_cons_of_mem _ member)
      have first := lexical event List.mem_cons_self
      cases event with
      | reported found =>
          have blameless : found.blames mark = false := by
            rw [Diagnostic.blames, not_syntax_error_of_lexical first, Bool.false_and]
          rw [List.cons_append, pending, blameless, if_neg Bool.false_ne_true, rest]
      | consumed token => cases first.1
      | scanned token => exact rest
      | comment token => exact rest

theorem answered_lexical (lexical : ∀ event ∈ events, event.IsLexical)
    (answered : Answered mark earlier) : Answered mark (events ++ earlier) := by
  induction events with
  | nil => exact answered
  | cons event others induction =>
      have rest := induction fun other member => lexical other (List.mem_cons_of_mem _ member)
      have first := lexical event List.mem_cons_self
      cases event with
      | reported found =>
          refine ⟨?_, rest⟩
          intro isError
          rw [not_syntax_error_of_lexical first] at isError
          cases isError
      | consumed token => exact rest
      | scanned token => exact rest
      | comment token => exact rest

theorem blames_of_pending (member : found ∈ pending mark events) : found.blames mark = true := by
  induction events with
  | nil => cases member
  | cons event others induction =>
      cases event with
      | reported other =>
          rw [pending] at member
          split at member
          · next blames =>
            rcases List.mem_cons.mp member with rfl | member
            · exact blames
            · exact induction member
          · exact induction member
      | consumed token => exact induction (List.mem_filter.mp member).1
      | scanned token => exact induction member
      | comment token => exact induction member

theorem pending_or_consumed (blames : found.blames mark = true) (between : List ParseEvent) :
    found ∈ pending mark (between ++ .reported found :: earlier) ∨
      ∃ token, .consumed token ∈ between ∧ found.isAt token = true := by
  induction between with
  | nil =>
      left
      rw [List.nil_append, pending, if_pos blames]
      exact List.mem_cons_self
  | cons event others induction =>
      rcases induction with waits | ⟨token, consumed, here⟩
      · cases event with
        | reported other =>
            left
            rw [List.cons_append, pending]
            split
            · exact List.mem_cons_of_mem _ waits
            · exact waits
        | consumed token =>
            cases here : found.isAt token with
            | true => exact .inr ⟨token, List.mem_cons_self, here⟩
            | false =>
                left
                rw [List.cons_append, pending]
                exact List.mem_filter.mpr ⟨waits, by simp [here]⟩
        | scanned token => exact .inl waits
        | comment token => exact .inl waits
      · exact .inr ⟨token, List.mem_cons_of_mem _ consumed, here⟩

theorem Answered.of_append {later : List ParseEvent} (answered : Answered mark (later ++ earlier)) :
    Answered mark earlier := by
  induction later with
  | nil => exact answered
  | cons event others induction =>
      cases event with
      | reported other => exact induction answered.2
      | _ => exact induction answered

theorem Answered.consumed_between {later between : List ParseEvent} {second : Diagnostic}
    (answered : Answered mark (later ++ .reported second :: (between ++ .reported found :: earlier)))
    (isError : second.isSyntaxError = true) (blames : found.blames mark = true) :
    ∃ token, .consumed token ∈ between ∧ found.isAt token = true := by
  have none := answered.of_append.1 isError
  have either : found ∈ pending mark (between ++ .reported found :: earlier) ∨ _ :=
    pending_or_consumed blames between
  rcases either with waits | consumed
  · rw [none] at waits
    cases waits
  · exact consumed

end Events

end TinyPascal
