import TinyPascal.Proofs.RoundTrip.PrintedExpression

/-!
# Printed commands are read again

A command without an `else` must not be printed in front of one. In the tree it
never stands there: the first reading would have taken the `else` as its own.
-/

namespace TinyPascal

set_option autoImplicit false

namespace Command

mutual

/-- How many calls inside the expressions of a command have parentheses around
nothing. A call that is a command of its own is printed without them. -/
def emptyCalls : Command → Nat
  | assign assignment => assignment.value.emptyCalls
  | call _ args _ => Expr.emptyCallsIn (args.getD [])
  | ifThen _ condition branch => condition.emptyCalls + branch.emptyCalls
  | ifElse _ condition branch otherwise =>
      condition.emptyCalls + branch.emptyCalls + otherwise.emptyCalls
  | whileDo _ condition body => condition.emptyCalls + body.emptyCalls
  | forDo _ start _ bound body => start.value.emptyCalls + bound.emptyCalls + body.emptyCalls
  | block _ commands => emptyCallsIn commands

def emptyCallsIn : List Command → Nat
  | [] => 0
  | first :: others => first.emptyCalls + emptyCallsIn others

end

def chars (command : Command) : List Char := command.text.toList

theorem texts_eq (commands : List Command) : texts commands = commands.map text := by
  induction commands with
  | nil => rfl
  | cons first others induction => rw [texts, induction, List.map_cons]

theorem empty_calls_in_eq (commands : List Command) :
    emptyCallsIn commands = total emptyCalls commands := by
  induction commands with
  | nil => rfl
  | cons first others induction => rw [emptyCallsIn, induction, total]

/-- The commands of a block behind `begin`, up to its `end`. -/
def innerChars : List Command → List Char
  | [] => [' ']
  | first :: others => ' ' :: (first.chars ++ (behindChars ';' chars others ++ [' ']))

theorem block_text_to_list (commands : List Command) :
    (blockText (texts commands)).toList = "begin".toList ++ (innerChars commands ++ "end".toList) := by
  cases commands with
  | nil => rfl
  | cons first others =>
      have whole : blockText (texts (first :: others)) =
          "begin " ++ "; ".intercalate (texts (first :: others)) ++ " end" := rfl
      rw [whole, texts_eq, String.toList_append, String.toList_append,
        to_list_intercalate (c := ';') rfl]
      simp [innerChars]
      rfl

end Command

open Phrase Lexeme

/-- What is printed for the command can be read in front of `other`. -/
abbrev Reprinted (phrase : Phrase Command) (value : Command) (other : List Token) : Prop :=
  ∃ script, phrase script other value ∧ Printed value.chars value.emptyCalls script

/-- Read again as a command: not before an `else`, unless there was one. -/
def ReprintsCommand (phrase : Phrase Command) : Prop :=
  ∀ script rest value, phrase script rest value → script.Written → ∀ other,
    NotBefore (continuesCommand true) other →
    (NotBefore (· = .elseKw) rest → NotBefore (· = .elseKw) other) →
    Reprinted phrase value other

namespace Phrase

theorem ends_command_of_end {tokens : List Token} (ended : faces (· = .endKw) tokens = true) :
    faces Kind.endsCommand tokens = true := by
  cases tokens with
  | nil => cases ended
  | cons token others =>
      rw [faces_cons, of_decide_eq_true ended]
      rfl

theorem reduce_option_map_some {α : Type} (values : List α) :
    (values.map some).reduceOption = values := by
  induction values with
  | nil => rfl
  | cons first others induction =>
      rw [List.map_cons, List.reduceOption_cons_of_some, induction]

theorem not_before_of_ends_command {tokens : List Token}
    (ends : faces Kind.endsCommand tokens = true) : NotBefore (continuesCommand false) tokens := by
  refine not_faces_of_faces ?_ ends
  intro kind
  cases kind <;> decide

theorem reprints_element {command : Phrase Command} (each : ReprintsCommand command)
    {script : Script} {rest : List Token} {value : Command} (read : command script rest value)
    (written : script.Written) {other : List Token} (ends : faces Kind.endsCommand other = true) :
    Reprinted command value other := by
  have clear := not_before_of_ends_command ends
  apply each _ _ _ read written other (clear.mono continues_command_open)
  intro _
  apply clear.mono
  intro kind isElse
  simp_all [continuesCommand]

theorem not_end_of_command {n : Nat} {script : Script} {rest : List Token} {value : Command}
    (read : SingleCommand unbroken n script rest value) (tokens : List Token) :
    faces (· = .endKw) (script.tokens ++ tokens) = false := by
  refine not_faces_of_faces ?_ (faces_append _ (command_starts read))
  intro kind
  cases kind <;> decide

/-- The commands behind the first one. A semicolon too many is not printed. -/
theorem reprints_behind {n : Nat} (each : ReprintsCommand (SingleCommand unbroken n))
    {script : Script} {rest : List Token} {values : List (Option Command)}
    (series : Series (· = .semicolon) (Behind (Element unbroken (SingleCommand unbroken n))) script
      rest values)
    (written : script.Written) {other : List Token} (ended : faces (· = .endKw) other = true) :
    ∃ script, Series (· = .semicolon) (Behind (Element unbroken (SingleCommand unbroken n))) script
        other (values.reduceOption.map some) ∧
      Printed (behindChars ';' Command.chars values.reduceOption)
        (total Command.emptyCalls values.reduceOption) script ∧
      faces Kind.endsCommand (script.tokens ++ other) = true := by
  induction series with
  | stop _ =>
      refine ⟨[], .stop (not_faces_of_faces ?_ ended), .nil, ends_command_of_end ended⟩
      intro kind isEnd
      simp_all
  | @more semicolon front back rest first others opens head tail induction =>
      rw [Script.written_read, Script.written_append] at written
      obtain ⟨isWritten, writtenFront, writtenBack⟩ := written
      obtain ⟨behind, series, printed, clear⟩ := induction writtenBack
      have isSemicolon : semicolon.kind = .semicolon := of_decide_eq_true opens
      rcases head with ⟨-, _, -, -, rfl⟩ | ⟨-, ⟨command, rfl, read⟩ | ⟨impossible, -⟩⟩
      · exact ⟨behind, series, printed, clear⟩
      · obtain ⟨script, read, printedFirst⟩ := reprints_element each read writtenFront clear
        refine ⟨.read semicolon :: (script ++ behind),
          .more opens (.inr ⟨not_end_of_command read _, .inl ⟨command, rfl, read⟩⟩) series, ?_, ?_⟩
        · exact Printed.lone isWritten isSemicolon rfl (by decide)
            (printedFirst.append (soft_behind_chars (by decide) _ _) printed).blank
        · rw [Script.tokens_read, List.cons_append, faces_cons, isSemicolon]
          rfl
      · exact impossible.elim

theorem reprints_commands {n : Nat} (each : ReprintsCommand (SingleCommand unbroken n))
    {script : Script} {rest : List Token} {values : List Command}
    (read : Body unbroken n script rest values) (written : script.Written) {other : List Token}
    (ended : faces (· = .endKw) other = true) :
    ∃ script, Body unbroken n script other values ∧
      Leads (Command.innerChars values) (Command.emptyCallsIn values) script := by
  cases read with
  | none _ =>
      refine ⟨[], .none ended, ?_⟩
      intro text count back tail
      simpa [Command.innerChars, Command.emptyCallsIn] using tail.blank
  | some _ head tail =>
      rw [Script.written_append] at written
      obtain ⟨behind, series, printed, clear⟩ := reprints_behind each tail written.2 ended
      rcases head with ⟨command, rfl, read⟩ | ⟨impossible, -⟩
      · obtain ⟨front, read, printedFirst⟩ := reprints_element each read written.1 clear
        have list := Commands.some (not_end_of_command read _) (.inl ⟨command, rfl, read⟩) series
        rw [List.reduceOption_cons_of_some, reduce_option_map_some] at list
        refine ⟨front ++ behind, list, ?_⟩
        have both := printedFirst.append (soft_behind_chars (by decide) _ _) printed
        rw [List.reduceOption_cons_of_some, Command.empty_calls_in_eq, total]
        simpa [Command.innerChars] using both.blank.leads
      · exact impossible.elim

theorem soft_inner_chars (commands : List Command) (text : List Char) :
    Soft (Command.innerChars commands ++ text) := by
  cases commands with
  | nil => exact soft_cons (by decide)
  | cons first others => exact soft_cons (by decide)

theorem direction_lexeme {token : Token} (written : token.IsWritten)
    (isTo : token.kind = .toKw ∨ token.kind = .downtoKw) :
    token.lexeme = (Direction.ofKind token.kind).word := by
  rcases isTo with isTo | isDownto
  · rw [written.eq_spelling isTo rfl, isTo]
    rfl
  · rw [written.eq_spelling isDownto rfl, isDownto]
    rfl

section Branches

variable {n : Nat} {rest other : List Token} {front middle back : Script}
  {keyword target name op thenWord elseWord toWord doWord opening closing : Token}
  {value condition start bound : Expr} {branch otherwise body : Command}

theorem reprinted_expr (read : Expression n front rest value) (written : front.Written)
    (ends : NotBefore continuesExpr other) :
    ∃ script, Expression n script other value ∧ Printed value.chars value.emptyCalls script :=
  reprints_expression n (reprints_factor n) _ _ _ read written other ends

theorem reprinted_assign (isName : target.kind = .ident) (assigns : op.kind = .assign)
    (right : Expression n front rest value)
    (written : Script.Written (.read target :: .read op :: front))
    (ends : NotBefore continuesExpr other) :
    Reprinted (SingleCommand unbroken (n + 1)) (.assign ⟨op, target, value⟩) other := by
  simp only [Script.written_read] at written
  obtain ⟨script, read, printed⟩ := reprinted_expr right written.2.2 ends
  have whole := Printed.spaced written.1 (Printed.spaced written.2.1 printed)
  rw [written.2.1.eq_spelling assigns rfl] at whole
  refine ⟨_, .assign isName assigns read, ?_⟩
  simpa [Command.chars, Command.text, Assignment.text, Command.emptyCalls, Expr.chars] using whole

theorem reprinted_bare_call (isName : name.kind = .ident) (written : name.IsWritten)
    (clear : NotBefore (continuesCommand true) other) :
    Reprinted (SingleCommand unbroken (n + 1)) (.call name (some []) none) other := by
  have whole := Printed.word written soft_nil .nil
  refine ⟨_, .bareCall isName (clear.mono ?_) (clear.mono ?_), ?_⟩
  · intro kind isAssign
    simp_all [continuesCommand]
  · intro kind isParenthesis
    simp_all [continuesCommand, continuesExpr, continuesSimple, continuesTerm, continuesFactor]
  · simpa [Command.chars, Command.text, Command.callText, Command.emptyCalls, Expr.emptyCallsIn]
      using whole

theorem reprinted_call {args : List Expr} (isName : name.kind = .ident)
    (given : Arguments (Expression n) front rest args)
    (written : Script.Written (.read name :: front))
    (clear : NotBefore (continuesCommand true) other) :
    Reprinted (SingleCommand unbroken (n + 1)) (.call name (some args) none) other := by
  rw [Script.written_read] at written
  cases args with
  | nil => exact reprinted_bare_call isName written.1 clear
  | cons first others =>
      have exprs := reprints_expression n (reprints_factor n)
      obtain ⟨script, read, printed⟩ :=
        reprints_arguments exprs _ _ _ given written.2 other trivial
      have whole := Printed.word written.1 (soft_cons (by decide)) printed
      refine ⟨_, .call isName read, ?_⟩
      simpa [Command.chars, Command.text, Command.callText, Command.emptyCalls,
        Expr.argumentChars, Expr.argumentCalls] using whole

theorem reprinted_block {commands : List Command}
    (each : ReprintsCommand (SingleCommand unbroken n)) (opens : opening.kind = .beginKw)
    (inner : Body unbroken n front (closing :: rest) commands) (closes : closing.kind = .endKw)
    (written : Script.Written (.read opening :: (front ++ [.read closing]))) :
    Reprinted (SingleCommand unbroken (n + 1)) (.block opening commands) other := by
  simp only [Script.written_read, Script.written_append] at written
  obtain ⟨script, read, printed⟩ := @reprints_commands n each _ _ _ inner written.2.1
    (closing :: other) (by simp [closes])
  have whole := Printed.keyword written.1 opens rfl (soft_inner_chars _ _)
    (printed _ _ _ (.keyword written.2.2.1 closes rfl soft_nil .nil))
  refine ⟨_, .block opens read closes, ?_⟩
  rw [Command.chars, Command.text, Command.block_text_to_list]
  simpa [Command.emptyCalls] using whole

theorem reprinted_if_then (isIf : keyword.kind = .ifKw)
    (test : Expression n front (thenWord :: (back.tokens ++ rest)) condition)
    (isThen : thenWord.kind = .thenKw)
    (written : Script.Written (.read keyword :: (front ++ .read thenWord :: back)))
    (yes : back.Written → Reprinted (SingleCommand unbroken n) branch other)
    (alone : NotBefore (· = .elseKw) other) :
    Reprinted (SingleCommand unbroken (n + 1)) (.ifThen keyword condition branch) other := by
  simp only [Script.written_read, Script.written_append] at written
  obtain ⟨ifWritten, testWritten, thenWritten, yesWritten⟩ := written
  obtain ⟨back, readBack, printedBack⟩ := yes yesWritten
  obtain ⟨front, readFront, printedFront⟩ := reprinted_expr test testWritten
    (not_before_of_kind isThen rfl (back.tokens ++ other))
  have whole := Printed.spaced ifWritten (printedFront.joined thenWritten printedBack)
  refine ⟨_, .ifThen isIf readFront isThen readBack alone, ?_⟩
  rw [ifWritten.eq_spelling isIf rfl, thenWritten.eq_spelling isThen rfl] at whole
  simpa [Command.chars, Command.text, Command.emptyCalls, Expr.chars] using whole

/-- The branch stands in front of the same `else` as before. -/
theorem reprinted_if_else (each : ReprintsCommand (SingleCommand unbroken n))
    (isIf : keyword.kind = .ifKw)
    (test : Expression n front (thenWord :: (middle.tokens ++ elseWord :: (back.tokens ++ rest)))
      condition)
    (isThen : thenWord.kind = .thenKw)
    (yes : SingleCommand unbroken n middle (elseWord :: (back.tokens ++ rest)) branch)
    (isElse : elseWord.kind = .elseKw)
    (written : Script.Written
      (.read keyword :: (front ++ .read thenWord :: (middle ++ .read elseWord :: back))))
    (no : back.Written → Reprinted (SingleCommand unbroken n) otherwise other) :
    Reprinted (SingleCommand unbroken (n + 1)) (.ifElse keyword condition branch otherwise)
      other := by
  simp only [Script.written_read, Script.written_append] at written
  obtain ⟨ifWritten, testWritten, thenWritten, yesWritten, elseWritten, noWritten⟩ := written
  obtain ⟨back, readBack, printedBack⟩ := no noWritten
  have ownElse : NotBefore (continuesCommand true) (elseWord :: (back.tokens ++ other)) :=
    not_before_of_kind isElse rfl _
  obtain ⟨middle, readMiddle, printedMiddle⟩ := each _ _ _ yes yesWritten _ ownElse (by
    intro noElse
    exact absurd noElse (by simp [NotBefore, isElse]))
  obtain ⟨front, readFront, printedFront⟩ := reprinted_expr test testWritten
    (not_before_of_kind isThen rfl (middle.tokens ++ elseWord :: (back.tokens ++ other)))
  have whole := Printed.spaced ifWritten (printedFront.joined thenWritten
    (printedMiddle.joined elseWritten printedBack))
  refine ⟨_, .ifElse isIf readFront isThen readMiddle isElse readBack, ?_⟩
  rw [ifWritten.eq_spelling isIf rfl, thenWritten.eq_spelling isThen rfl,
    elseWritten.eq_spelling isElse rfl] at whole
  simpa [Command.chars, Command.text, Command.emptyCalls, Expr.chars, Nat.add_assoc] using whole

theorem reprinted_while (isWhile : keyword.kind = .whileKw)
    (test : Expression n front (doWord :: (back.tokens ++ rest)) condition)
    (isDo : doWord.kind = .doKw)
    (written : Script.Written (.read keyword :: (front ++ .read doWord :: back)))
    (repeated : back.Written → Reprinted (SingleCommand unbroken n) body other) :
    Reprinted (SingleCommand unbroken (n + 1)) (.whileDo keyword condition body) other := by
  simp only [Script.written_read, Script.written_append] at written
  obtain ⟨whileWritten, testWritten, doWritten, bodyWritten⟩ := written
  obtain ⟨back, readBack, printedBack⟩ := repeated bodyWritten
  obtain ⟨front, readFront, printedFront⟩ := reprinted_expr test testWritten
    (not_before_of_kind isDo rfl (back.tokens ++ other))
  have whole := Printed.spaced whileWritten (printedFront.joined doWritten printedBack)
  refine ⟨_, .whileDo isWhile readFront isDo readBack, ?_⟩
  rw [whileWritten.eq_spelling isWhile rfl, doWritten.eq_spelling isDo rfl] at whole
  simpa [Command.chars, Command.text, Command.emptyCalls, Expr.chars] using whole

theorem reprinted_for (isFor : keyword.kind = .forKw) (isName : target.kind = .ident)
    (assigns : op.kind = .assign)
    (begins : Expression n front (toWord :: (middle.tokens ++ doWord :: (back.tokens ++ rest))) start)
    (isTo : toWord.kind = .toKw ∨ toWord.kind = .downtoKw)
    (upTo : Expression n middle (doWord :: (back.tokens ++ rest)) bound)
    (isDo : doWord.kind = .doKw)
    (written : Script.Written (.read keyword :: .read target :: .read op ::
      (front ++ .read toWord :: (middle ++ .read doWord :: back))))
    (repeated : back.Written → Reprinted (SingleCommand unbroken n) body other) :
    Reprinted (SingleCommand unbroken (n + 1))
      (.forDo keyword ⟨op, target, start⟩ (.ofKind toWord.kind) bound body) other := by
  simp only [Script.written_read, Script.written_append] at written
  obtain ⟨forWritten, nameWritten, opWritten, startWritten, toWritten, boundWritten, doWritten,
    bodyWritten⟩ := written
  obtain ⟨back, readBack, printedBack⟩ := repeated bodyWritten
  obtain ⟨middle, readMiddle, printedMiddle⟩ := reprinted_expr upTo boundWritten
    (not_before_of_kind isDo rfl (back.tokens ++ other))
  have startEnds : NotBefore continuesExpr
      (toWord :: (middle.tokens ++ doWord :: (back.tokens ++ other))) := by
    rcases isTo with isTo | isDownto
    · exact not_before_of_kind isTo rfl _
    · exact not_before_of_kind isDownto rfl _
  obtain ⟨front, readFront, printedFront⟩ := reprinted_expr begins startWritten startEnds
  have whole := Printed.spaced forWritten (Printed.spaced nameWritten
    (Printed.spaced opWritten (printedFront.joined toWritten
      (printedMiddle.joined doWritten printedBack))))
  refine ⟨_, .forDo isFor isName assigns readFront isTo readMiddle isDo readBack, ?_⟩
  rw [forWritten.eq_spelling isFor rfl, opWritten.eq_spelling assigns rfl,
    direction_lexeme toWritten isTo, doWritten.eq_spelling isDo rfl] at whole
  simpa [Command.chars, Command.text, Assignment.text, Command.emptyCalls, Expr.chars,
    Nat.add_assoc] using whole

end Branches

theorem reprints_command (n : Nat) : ReprintsCommand (SingleCommand unbroken n) := by
  induction n with
  | zero =>
      intro script rest value impossible
      exact impossible.elim
  | succ n induction =>
      intro script rest value read written other clear alone
      cases read with
      | assign isName assigns right =>
          apply reprinted_assign isName assigns right written
          apply clear.mono
          intro kind continues
          simp [continuesCommand, continues]
      | bareCall isName _ _ =>
          rw [Script.written_read] at written
          exact reprinted_bare_call isName written.1 clear
      | call isName given => exact reprinted_call isName given written clear
      | block opens inner closes => exact reprinted_block induction opens inner closes written
      | ifThen isIf test isThen yes noElse =>
          exact reprinted_if_then isIf test isThen written
            (fun own => induction _ _ _ yes own other clear alone) (alone noElse)
      | ifElse isIf test isThen yes isElse no =>
          exact reprinted_if_else induction isIf test isThen yes isElse written
            fun own => induction _ _ _ no own other clear alone
      | whileDo isWhile test isDo repeated =>
          exact reprinted_while isWhile test isDo written
            fun own => induction _ _ _ repeated own other clear alone
      | forDo isFor isName assigns begins isTo upTo isDo repeated =>
          exact reprinted_for isFor isName assigns begins isTo upTo isDo written
            fun own => induction _ _ _ repeated own other clear alone

end Phrase

end TinyPascal
