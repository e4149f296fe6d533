import TinyPascal.Proofs.Phrase.Follow
import TinyPascal.Proofs.RoundTrip.Printed
import TinyPascal.Tree.Printer

/-!
# Printed expressions are read again

What was read as an expression is read again from its printed text, as the same
expression. The printed text need not follow what followed the first one, only
something that does not continue it.
-/

namespace TinyPascal

set_option autoImplicit false

namespace Expr

mutual

/-- How many calls inside an expression have parentheses around nothing. -/
def emptyCalls : Expr → Nat
  | binary _ left right _ => left.emptyCalls + right.emptyCalls
  | unary _ operand => operand.emptyCalls
  | name _ _ => 0
  | call _ args _ => (if args.isEmpty then 1 else 0) + emptyCallsIn args
  | literal _ => 0

def emptyCallsIn : List Expr → Nat
  | [] => 0
  | first :: others => first.emptyCalls + emptyCallsIn others

end

def chars (expr : Expr) : List Char := expr.text.toList

theorem texts_eq (exprs : List Expr) : texts exprs = exprs.map text := by
  induction exprs with
  | nil => rfl
  | cons first others induction => rw [texts, induction, List.map_cons]

theorem empty_calls_in_eq (exprs : List Expr) : emptyCallsIn exprs = total emptyCalls exprs := by
  induction exprs with
  | nil => rfl
  | cons first others induction => rw [emptyCallsIn, induction, total]

def argumentChars (args : List Expr) : List Char :=
  '(' :: ((", ".intercalate (texts args)).toList ++ [')'])

theorem argument_chars_cons (first : Expr) (others : List Expr) :
    argumentChars (first :: others) =
      '(' :: (first.chars ++ behindChars ',' chars others ++ [')']) := by
  rw [argumentChars, texts_eq, to_list_intercalate (c := ',') rfl]
  rfl

def argumentCalls (args : List Expr) : Nat := (if args.isEmpty then 1 else 0) + emptyCallsIn args

def linkChars : List (Token × Expr) → List Char
  | [] => []
  | (op, right) :: links => ' ' :: (op.lexeme.toList ++ ' ' :: (right.chars ++ linkChars links))

def linkCalls : List (Token × Expr) → Nat
  | [] => 0
  | (_, right) :: links => right.emptyCalls + linkCalls links

theorem chars_foldl_join (links : List (Token × Expr)) (first : Expr) :
    (links.foldl join first).chars = first.chars ++ linkChars links := by
  induction links generalizing first with
  | nil => simp [linkChars]
  | cons link links induction =>
      rw [List.foldl_cons, induction]
      simp [linkChars, chars, join, text]

theorem empty_calls_foldl_join (links : List (Token × Expr)) (first : Expr) :
    (links.foldl join first).emptyCalls = first.emptyCalls + linkCalls links := by
  induction links generalizing first with
  | nil => rfl
  | cons link links induction =>
      rw [List.foldl_cons, induction]
      simp [linkCalls, join, emptyCalls, Nat.add_assoc]

end Expr

open Phrase Lexeme

/-- All tokens are lexemes of the language. -/
def Script.Written (script : Script) : Prop := ∀ token ∈ script.tokens, token.IsWritten

namespace Script

@[simp]
theorem written_nil : Written [] := by
  intro token member
  cases member

@[simp]
theorem written_read {token : Token} {script : Script} :
    Written (.read token :: script) ↔ token.IsWritten ∧ Written script := by
  simp [Written]

@[simp]
theorem written_warning {token : Token} {problem : SyntacticProblem} {script : Script} :
    Written (warning token problem :: script) ↔ Written script := by
  simp [Written]

@[simp]
theorem written_append {first second : Script} :
    Written (first ++ second) ↔ Written first ∧ Written second := by
  simp [Written, or_imp, forall_and]

end Script

/-- What was read once is read again as printed, before anything that `follow`
allows. -/
def Reprints {α : Type} (phrase : Phrase α) (follow : List Token → Prop) (text : α → List Char)
    (count : α → Nat) : Prop :=
  ∀ script rest value, phrase script rest value → script.Written → ∀ other, follow other →
    ∃ script, phrase script other value ∧ Printed (text value) (count value) script

abbrev ReprintsExpr (phrase : Phrase Expr) (follows : Kind → Bool) : Prop :=
  Reprints phrase (NotBefore follows) Expr.chars Expr.emptyCalls

namespace Phrase

theorem soft_link_chars (links : List (Token × Expr)) : Soft (Expr.linkChars links) := by
  cases links with
  | nil => exact soft_nil
  | cons link links => exact soft_cons (by decide)

theorem reprints_links {ops follows : Kind → Bool} {operand : Phrase Expr}
    (each : ReprintsExpr operand follows) (apart : ∀ kind, ops kind = true → follows kind = false)
    {script : Script} {rest : List Token} {links : List (Token × Expr)}
    (series : Series ops (Link operand) script rest links) (written : script.Written)
    {other : List Token} (right : NotBefore (fun kind => follows kind || ops kind) other) :
    ∃ script, Series ops (Link operand) script other links ∧
      Printed (Expr.linkChars links) (Expr.linkCalls links) script ∧
      NotBefore follows (script.tokens ++ other) := by
  induction series with
  | stop ended =>
      refine ⟨[], .stop (right.mono fun kind faced => by simp [faced]), .nil, ?_⟩
      exact right.mono fun kind faced => by simp [faced]
  | @more opening front back rest link others opens head tail induction =>
      obtain ⟨sameOp, operandRead⟩ := head
      obtain ⟨op, operandValue⟩ := link
      subst sameOp
      simp only [Script.written_read, Script.written_append] at written
      obtain ⟨isWritten, writtenFront, writtenBack⟩ := written
      obtain ⟨behind, series, printed, clear⟩ := induction writtenBack
      obtain ⟨first, read, printedFirst⟩ := each _ _ _ operandRead writtenFront _ clear
      refine ⟨.read op :: (first ++ behind), .more opens ⟨rfl, read⟩ series, ?_, apart _ opens⟩
      exact (Printed.spaced isWritten
        (printedFirst.append (soft_link_chars others) printed)).blank

theorem reprints_term {factor : Phrase Expr} (each : ReprintsExpr factor continuesFactor) :
    ReprintsExpr (Term factor) continuesTerm := by
  rintro _ _ _ ⟨head, tail⟩ written other right
  rw [Script.written_append] at written
  obtain ⟨back, series, printed, clear⟩ :=
    reprints_links each (by intro kind; cases kind <;> decide) tail written.2 right
  obtain ⟨front, read, printedFirst⟩ := each _ _ _ head written.1 _ clear
  refine ⟨front ++ back, .intro read series, ?_⟩
  rw [Expr.chars_foldl_join, Expr.empty_calls_foldl_join]
  exact printedFirst.append (soft_link_chars _) printed

theorem reprints_simple (n : Nat) (each : ReprintsExpr (Factor n) continuesFactor) :
    ReprintsExpr (Simple (Factor n)) continuesSimple := by
  have terms := reprints_term each
  have apart : ∀ kind, Kind.isAdditive kind = true → continuesTerm kind = false := by
    intro kind
    cases kind <;> decide
  intro script rest value read written other right
  cases read with
  | unsigned _ head tail =>
      rw [Script.written_append] at written
      obtain ⟨back, series, printed, clear⟩ := reprints_links terms apart tail written.2 right
      obtain ⟨front, read, printedFirst⟩ := terms _ _ _ head written.1 _ clear
      have bare : faces Kind.isSign (front.tokens ++ (back.tokens ++ other)) = false := by
        refine not_faces_of_faces ?_ (faces_append _ (term_starts read))
        intro kind
        cases kind <;> decide
      refine ⟨front ++ back, .unsigned bare read series, ?_⟩
      rw [Expr.chars_foldl_join, Expr.empty_calls_foldl_join]
      exact printedFirst.append (soft_link_chars _) printed
  | @signed sign _ _ _ _ _ isSign head tail =>
      rw [Script.written_read, Script.written_append] at written
      obtain ⟨back, series, printed, clear⟩ := reprints_links terms apart tail written.2.2 right
      obtain ⟨front, read, printedFirst⟩ := terms _ _ _ head written.2.1 _ clear
      refine ⟨.read sign :: (front ++ back), .signed isSign read series, ?_⟩
      rw [Expr.chars_foldl_join, Expr.empty_calls_foldl_join]
      have both := printedFirst.append (soft_link_chars _) printed
      have isSign : sign.kind = .plus ∨ sign.kind = .minus := by
        revert isSign
        cases sign.kind <;> simp [Kind.isSign]
      rcases isSign with isPlus | isMinus
      · have whole := Printed.lone (c := '+') written.1 isPlus rfl (by decide) both
        simpa [Expr.chars, Expr.text, Expr.emptyCalls, isPlus,
          written.1.eq_spelling isPlus rfl] using whole
      · have whole := Printed.lone (c := '-') written.1 isMinus rfl (by decide) both
        simpa [Expr.chars, Expr.text, Expr.emptyCalls, isMinus,
          written.1.eq_spelling isMinus rfl] using whole

theorem reprints_expression (n : Nat) (each : ReprintsExpr (Factor n) continuesFactor) :
    ReprintsExpr (Expression n) continuesExpr := by
  have simples := reprints_simple n each
  intro script rest value read written other right
  have short : NotBefore continuesSimple other := by
    apply right.mono
    intro kind continues
    simp [continuesExpr, continues]
  cases read with
  | plain only _ =>
      obtain ⟨script, read, printed⟩ := simples _ _ _ only written _ short
      refine ⟨script, .plain read (right.mono ?_), printed⟩
      intro kind relates
      simp [continuesExpr, relates]
  | @compared op _ _ _ left right before relates after =>
      rw [Script.written_append, Script.written_read] at written
      obtain ⟨back, readBack, printedBack⟩ := simples _ _ _ after written.2.2 _ short
      have clear : continuesSimple op.kind = false := by
        revert relates
        cases op.kind <;> decide
      obtain ⟨front, readFront, printedFront⟩ :=
        simples _ _ _ before written.1 (op :: (back.tokens ++ other)) clear
      refine ⟨front ++ .read op :: back, .compared readFront relates readBack, ?_⟩
      have whole := printedFront.joined written.2.1 printedBack
      simpa [Expr.chars, Expr.text, Expr.emptyCalls] using whole

theorem reprints_separated {α : Type} {kind : Kind} {c : Char}
    (spelled : kind.spelling? = some (String.singleton c)) (lone : isLone c = true)
    (stop : isBreak c = true) {item : Phrase α} {follows : Kind → Bool} {text : α → List Char}
    {count : α → Nat} (each : Reprints item (NotBefore follows) text count)
    (apart : follows kind = false) {script : Script} {rest : List Token} {values : List α}
    (series : Series (· = kind) (fun _ => item) script rest values) (written : script.Written)
    {other : List Token} (right : NotBefore (fun next => follows next || next = kind) other) :
    ∃ script, Series (· = kind) (fun _ => item) script other values ∧
      Printed (behindChars c text values) (total count values) script ∧
      NotBefore follows (script.tokens ++ other) := by
  induction series with
  | stop ended =>
      refine ⟨[], .stop (right.mono fun kind faced => by simp_all), .nil, ?_⟩
      exact right.mono fun kind faced => by simp [faced]
  | @more separator front back rest first others opens head tail induction =>
      rw [Script.written_read, Script.written_append] at written
      obtain ⟨isWritten, writtenFront, writtenBack⟩ := written
      obtain ⟨behind, series, printed, clear⟩ := induction writtenBack
      obtain ⟨script, read, printedFirst⟩ := each _ _ _ head writtenFront _ clear
      have isKind : separator.kind = kind := of_decide_eq_true opens
      refine ⟨.read separator :: (script ++ behind), .more opens read series, ?_,
        not_before_of_kind isKind apart _⟩
      exact Printed.lone isWritten isKind spelled lone
        (printedFirst.append (soft_behind_chars stop text others) printed).blank

theorem reprints_arguments {n : Nat} (each : ReprintsExpr (Expression n) continuesExpr) :
    Reprints (Arguments (Expression n)) (fun _ => True) Expr.argumentChars Expr.argumentCalls := by
  intro script rest args read written other _
  cases read with
  | @empty opening closing _ opens closes =>
      refine ⟨_, .empty opens closes, ?_⟩
      simp only [Script.written_read, Script.written_warning] at written
      exact .lone written.1 opens rfl (by decide)
        (.remark (.lone written.2.1 closes rfl (by decide) .nil) _)
  | @listed opening closing _ _ _ opens _ list closes =>
      obtain ⟨head, tail⟩ := list
      simp only [Script.written_read, Script.written_append] at written
      obtain ⟨isWritten, ⟨writtenFront, writtenBack⟩, closingWritten, -⟩ := written
      obtain ⟨back, series, printedBack, clear⟩ := reprints_separated (c := ',') rfl (by decide)
        (by decide) each rfl tail writtenBack (not_before_of_kind closes rfl other)
      obtain ⟨front, readFront, printedFront⟩ := each _ _ _ head writtenFront _ clear
      have given : faces (· = .rparen) ((front ++ back).tokens ++ closing :: other) = false := by
        rw [Script.tokens_append, List.append_assoc]
        refine not_faces_of_faces ?_ (faces_append _ (expression_starts readFront))
        intro kind
        cases kind <;> decide
      refine ⟨.read opening :: ((front ++ back) ++ [.read closing]),
        .listed opens given (.intro readFront series) closes, ?_⟩
      have whole := Printed.lone (c := '(') isWritten opens rfl (by decide)
        ((printedFront.append (soft_behind_chars (by decide) _ _) printedBack).append
          (soft_cons (by decide)) (.lone (c := ')') closingWritten closes rfl (by decide) .nil))
      rw [Expr.argument_chars_cons, Expr.argumentCalls, Expr.empty_calls_in_eq, total]
      simpa using whole

theorem reprints_factor (n : Nat) : ReprintsExpr (Factor n) continuesFactor := by
  induction n with
  | zero =>
      intro script rest value impossible
      exact impossible.elim
  | succ n induction =>
      have inner := reprints_expression n induction
      intro script rest value read written other right
      cases read with
      | literal isLiteral =>
          rw [Script.written_read] at written
          have whole := Printed.word written.1 soft_nil .nil
          refine ⟨_, .literal isLiteral, ?_⟩
          simpa [Expr.chars, Expr.text, Expr.emptyCalls] using whole
      | @negation op _ _ operand negates read =>
          rw [Script.written_read] at written
          obtain ⟨script, read, printed⟩ := induction _ _ _ read written.2 other right
          have whole := Printed.spaced written.1 printed
          rw [written.1.eq_spelling negates rfl] at whole
          refine ⟨_, .negation negates read, ?_⟩
          simpa [Expr.chars, Expr.text, Expr.emptyCalls, negates] using whole
      | @parentheses opening closing _ _ value opens read closes =>
          rw [Script.written_read, Script.written_append, Script.written_read] at written
          obtain ⟨script, read, printed⟩ :=
            inner _ _ _ read written.2.1 (closing :: other) (not_before_of_kind closes rfl other)
          have whole := Printed.lone (c := '(') written.1 opens rfl (by decide)
            (printed.append (soft_cons (by decide))
              (.lone (c := ')') written.2.2.1 closes rfl (by decide) .nil))
          refine ⟨_, .parentheses opens read closes, ?_⟩
          simpa [Expr.chars, Expr.text, Expr.emptyCalls, opens] using whole
      | name isName _ =>
          rw [Script.written_read] at written
          have whole := Printed.word written.1 soft_nil .nil
          refine ⟨_, .name isName (right.mono ?_), ?_⟩
          · intro kind isParenthesis
            simp_all [continuesFactor]
          · simpa [Expr.chars, Expr.text, Expr.emptyCalls] using whole
      | call isName given =>
          rw [Script.written_read] at written
          obtain ⟨script, read, printed⟩ :=
            reprints_arguments inner _ _ _ given written.2 other trivial
          have whole := Printed.word written.1 (soft_cons (by decide)) printed
          refine ⟨_, .call isName read, ?_⟩
          simpa [Expr.chars, Expr.text, Expr.argumentChars, Expr.argumentCalls, Expr.emptyCalls]
            using whole

end Phrase

end TinyPascal
