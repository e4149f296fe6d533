import TinyPascal.Proofs.RoundTrip.PrintedCommand

/-!
# Printed programs are read again

Parameters that were left empty and semicolons that were missing leave no trace in
the tree. They are printed as if the text had been in order, so nothing is said
about them the second time.
-/

namespace TinyPascal

set_option autoImplicit false

def Declaration.chars (declaration : Declaration) : List Char := declaration.text.toList

def Declaration.groupChars (declarations : List Declaration) : List Char :=
  declarations.flatMap fun declaration => ' ' :: (declaration.chars ++ [';'])

theorem Variables.text_to_list (vars : Variables) :
    vars.text.toList = "var".toList ++ Declaration.groupChars vars.declarations := by
  have folded : ∀ (declarations : List Declaration) (written : String),
      (declarations.foldl (fun written declaration => written ++ " " ++ declaration.text ++ ";")
        written).toList = written.toList ++ Declaration.groupChars declarations := by
    intro declarations
    induction declarations with
    | nil =>
        intro written
        exact (List.append_nil _).symm
    | cons first others induction =>
        intro written
        rw [List.foldl_cons, induction]
        simp [Declaration.groupChars, Declaration.chars]
  exact folded vars.declarations "var"

def Variables.paramChars (params : Option Variables) : List Char :=
  ((params.map Variables.paramsText).getD "").toList

theorem Variables.param_chars_some (opening : Token) (first : Declaration)
    (others : List Declaration) :
    paramChars (some ⟨opening, first :: others⟩) =
      '(' :: (first.chars ++ behindChars ';' Declaration.chars others ++ [')']) := by
  rw [paramChars, Option.map_some, Option.getD_some, paramsText, String.toList_append,
    String.toList_append, to_list_intercalate (c := ';') rfl]
  rfl

def Variables.localChars (locals : Option Variables) : List Char :=
  ((locals.map fun vars => vars.text ++ " ").getD "").toList

open Phrase Lexeme

namespace Phrase

theorem reprints_name : Reprints (one (· = .ident)) (NotBefore fun _ => false)
    (fun token => token.lexeme.toList) fun _ => 0 := by
  rintro _ rest token ⟨rfl, isName⟩ written other _
  rw [Script.written_read] at written
  have whole := Printed.word written.1 soft_nil .nil
  exact ⟨_, ⟨rfl, isName⟩, by simpa using whole⟩

theorem reprints_group {first : Token} {script : Script} {rest : List Token}
    {declaration : Declaration} (read : Group first script rest declaration)
    (firstWritten : first.IsWritten) (written : script.Written) (other : List Token) :
    ∃ script, Group first script other declaration ∧
      Printed declaration.chars 0 (.read first :: script) := by
  obtain @⟨colon, type, _, _, others, names, isColon, isType⟩ := read
  simp only [Script.written_append, Script.written_read] at written
  obtain ⟨namesWritten, colonWritten, typeWritten, -⟩ := written
  obtain ⟨script, series, printed, -⟩ := reprints_separated (c := ',') rfl (by decide) (by decide)
    reprints_name rfl names namesWritten (not_before_of_kind isColon rfl (type :: other))
  have typed : Printed (':' :: ' ' :: type.lexeme.toList) 0 [.read colon, .read type] := by
    have whole := Printed.spaced colonWritten (.word typeWritten soft_nil .nil)
    rw [colonWritten.eq_spelling isColon rfl] at whole
    simpa using whole
  have whole := ((Printed.word firstWritten soft_nil .nil).append
    (soft_behind_chars (by decide) _ _) printed).append (soft_cons (by decide)) typed
  refine ⟨_, .intro series isColon isType, ?_⟩
  rw [Declaration.chars, Declaration.text, String.toList_append, String.toList_append,
    to_list_intercalate (c := ',') rfl]
  simpa [total_zero] using whole

theorem reprints_param_group :
    Reprints ParamGroup (NotBefore fun _ => false) Declaration.chars fun _ => 0 := by
  rintro _ rest declaration ⟨isName, group⟩ written other _
  rw [Script.written_read] at written
  obtain ⟨script, read, printed⟩ := reprints_group group written.1 written.2 other
  exact ⟨_, .intro isName read, printed⟩

theorem reprints_variable_groups {script : Script} {rest : List Token} {groups : List Declaration}
    (series : Series (· = .ident) VariableGroup script rest groups) (written : script.Written)
    {other : List Token} (right : NotBefore (· = .ident) other) :
    ∃ script, Series (· = .ident) VariableGroup script other groups ∧
      Printed (Declaration.groupChars groups) 0 script := by
  induction series with
  | stop _ => exact ⟨[], .stop right, .nil⟩
  | @more first front back rest declaration others opens head tail induction =>
      obtain @⟨semicolon, _, _, _, group, closes⟩ := head
      simp only [Script.written_read, Script.written_append] at written
      obtain ⟨firstWritten, ⟨groupWritten, semicolonWritten, -⟩, backWritten⟩ := written
      obtain ⟨behind, series, printed⟩ := induction backWritten
      obtain ⟨script, read, printedGroup⟩ := reprints_group group firstWritten groupWritten
        (semicolon :: (behind.tokens ++ other))
      refine ⟨_, .more opens (.intro read closes) series, ?_⟩
      have whole := (printedGroup.append (soft_cons (by decide))
        (.lone (c := ';') semicolonWritten closes rfl (by decide) printed)).blank
      simpa [Declaration.groupChars] using whole

theorem soft_group_chars (groups : List Declaration) : Soft (Declaration.groupChars groups) := by
  cases groups with
  | nil => exact soft_nil
  | cons first others => exact soft_cons (by decide)

theorem reprints_var_section {script : Script} {rest : List Token} {locals : Option Variables}
    (read : VarSection script rest locals) (written : script.Written) {other : List Token}
    (right : faces Kind.endsVariables other = true) :
    ∃ script, VarSection script other locals ∧ Leads (Variables.localChars locals) 0 script := by
  cases read with
  | none _ =>
      refine ⟨[], .none (not_faces_of_faces ?_ right), leads_nil⟩
      intro kind
      cases kind <;> decide
  | @some keyword _ _ groups isVar named read =>
      rw [Script.written_read] at written
      obtain ⟨script, series, printed⟩ := reprints_variable_groups read written.2
        (not_faces_of_faces (by intro kind; cases kind <;> decide) right)
      have again : faces (· = .ident) (script.tokens ++ other) = true := by
        cases read with
        | stop ended => exact absurd (named.symm.trans ended) Bool.true_eq_false.mp
        | more _ _ _ =>
            cases series with
            | more opens _ _ => exact opens
      refine ⟨_, .some isVar again series, ?_⟩
      have whole := (Printed.keyword written.1 isVar rfl (soft_group_chars groups) printed).leads
      rw [Variables.localChars, Option.map_some, Option.getD_some, String.toList_append,
        Variables.text_to_list]
      exact whole

/-- The parameters of a header. Empty parentheses are not printed. -/
theorem reprints_params {script : Script} {rest : List Token} {params : Option Variables}
    (read : OptionalParams script rest params) (written : script.Written) {other : List Token}
    (right : NotBefore (· = .lparen) other) :
    ∃ script, OptionalParams script other params ∧
      Printed (Variables.paramChars params) 0 script := by
  have absent : OptionalParams [] other none := .inr ⟨right, rfl, rfl⟩
  rcases read with ⟨opening, back, rfl, opens, read⟩ | ⟨-, rfl, rfl⟩
  · cases read with
    | empty _ => exact ⟨[], absent, .nil⟩
    | @listed closing front back _ first others head tail closes =>
        simp only [Script.written_read, Script.written_append] at written
        obtain ⟨openingWritten, frontWritten, backWritten, closingWritten, -⟩ := written
        obtain ⟨behind, series, printed, clear⟩ := reprints_separated (c := ';') rfl (by decide)
          (by decide) reprints_param_group rfl tail backWritten (not_before_of_kind closes rfl other)
        obtain ⟨first, readFirst, printedFirst⟩ :=
          reprints_param_group _ _ _ head frontWritten _ clear
        refine ⟨_, .inl ⟨opening, _, rfl, opens, .listed readFirst series closes⟩, ?_⟩
        have whole := Printed.lone (c := '(') openingWritten (of_decide_eq_true opens) rfl (by decide)
          ((printedFirst.append (soft_behind_chars (by decide) _ _) printed).append
            (soft_cons (by decide)) (.lone (c := ')') closingWritten closes rfl (by decide) .nil))
        rw [Variables.param_chars_some]
        simpa [total_zero] using whole
  · exact ⟨[], absent, .nil⟩

theorem soft_param_chars (params : Option Variables) (text : List Char) (soft : Soft text) :
    Soft (Variables.paramChars params ++ text) := by
  cases params with
  | none => exact soft
  | some vars =>
      rw [Variables.paramChars, Option.map_some, Option.getD_some, Variables.paramsText]
      simp only [String.toList_append]
      exact soft_cons (by decide)

theorem reprints_procedure_header {script : Script} {rest : List Token} {name : Token}
    {params : Option Variables} (read : ProcedureHeader script rest (name, params))
    (written : script.Written) (other : List Token) :
    ∃ script, ProcedureHeader script other (name, params) ∧
      Leads (name.lexeme.toList ++ (Variables.paramChars params ++ [';', ' '])) 0 script := by
  obtain @⟨_, semicolon, _, _, _, isName, given, closes⟩ := read
  simp only [Script.written_read, Script.written_append] at written
  obtain ⟨nameWritten, paramsWritten, semicolonWritten, -⟩ := written
  obtain ⟨script, read, printed⟩ := reprints_params given paramsWritten
    (not_before_of_kind closes rfl other)
  refine ⟨_, .intro isName read closes, ?_⟩
  have whole := (Printed.word nameWritten (soft_param_chars params [';'] (soft_cons (by decide)))
    (printed.append (soft_cons (by decide))
      (.lone (c := ';') semicolonWritten closes rfl (by decide) .nil))).leads
  simpa using whole


/-- The body of a procedure. A missing semicolon is printed. -/
theorem reprints_procedure_body {n : Nat} {script : Script} {rest : List Token} {opening : Token}
    {list : List Command}
    (read : BodyOf (Body unbroken n) ProcedureEnd script rest (opening, list))
    (written : script.Written) (other : List Token) :
    ∃ script, BodyOf (Body unbroken n) ProcedureEnd script other (opening, list) ∧
      Printed ((Command.blockText (Command.texts list)).toList ++ [';'])
        (Command.emptyCallsIn list) script := by
  obtain @⟨_, endWord, _, _, _, _, opens, inner, ends, closes⟩ := read
  simp only [Script.written_read, Script.written_append] at written
  obtain ⟨openingWritten, innerWritten, endWritten, -⟩ := written
  have isSemicolon : (Token.fixed .semicolon).kind = .semicolon := rfl
  obtain ⟨script, read, leads⟩ := @reprints_commands n (reprints_command n) _ _ _ inner innerWritten
    (endWord :: .fixed .semicolon :: other) (by simp [ends])
  refine ⟨_, .intro opens read ends (.closed isSemicolon), ?_⟩
  have closing : Printed ("end".toList ++ [';']) 0 [.read endWord, .read (.fixed .semicolon)] :=
    .keyword endWritten ends rfl (soft_cons (by decide))
      (.lone (Token.is_written_fixed rfl) isSemicolon rfl (by decide) .nil)
  have whole := Printed.keyword openingWritten opens rfl (soft_inner_chars _ _)
    (leads _ _ _ closing)
  rw [Command.block_text_to_list]
  simpa using whole

end Phrase

namespace Program

mutual

def emptyCalls : Program → Nat
  | ⟨_, _, _, _, procedures, _, body⟩ => emptyCallsIn procedures + Command.emptyCallsIn body

def emptyCallsIn : List Program → Nat
  | [] => 0
  | first :: others => first.emptyCalls + emptyCallsIn others

end

end Program

/-- Read again as procedures in front of a body. -/
def ReprintsProcedures (phrase : Phrase (List Program)) : Prop :=
  ∀ script rest values, phrase script rest values → script.Written → ∀ other,
    faces (· = .beginKw) other = true →
    ∃ script, phrase script other values ∧
      Leads (Program.texts values).toList (Program.emptyCallsIn values) script

namespace Phrase

theorem reprints_procedure {n : Nat} (nested : ReprintsProcedures (Procedures unbroken n))
    {keyword : Token} {script : Script} {rest : List Token} {value : Program}
    (read : ProcedureOf (Procedures unbroken n) (Body unbroken n) keyword script rest value)
    (isProcedure : keyword.kind = .procedureKw) (keywordWritten : keyword.IsWritten)
    (written : script.Written) (other : List Token) :
    ∃ script, ProcedureOf (Procedures unbroken n) (Body unbroken n) keyword script other value ∧
      Printed value.text.toList value.emptyCalls (.read keyword :: script) := by
  obtain ⟨head, declared, defined, done⟩ := read
  simp only [Script.written_append] at written
  obtain ⟨headWritten, varsWritten, innerWritten, bodyWritten⟩ := written
  obtain ⟨body, readBody, printedBody⟩ := reprints_procedure_body done bodyWritten other
  have begun : faces (· = .beginKw) (body.tokens ++ other) = true := by
    cases readBody with
    | intro opens => simp [opens]
  obtain ⟨inner, readInner, leadsInner⟩ := nested _ _ _ defined innerWritten _ begun
  obtain ⟨vars, readVars, leadsVars⟩ :=
    reprints_var_section declared varsWritten (procedures_starts readInner begun)
  obtain ⟨header, readHeader, leadsHeader⟩ := reprints_procedure_header head headWritten _
  refine ⟨_, .intro readHeader readVars readInner readBody, ?_⟩
  have whole := Printed.spaced keywordWritten
    (leadsHeader _ _ _ (leadsVars _ _ _ (leadsInner _ _ _ printedBody)))
  rw [keywordWritten.eq_spelling isProcedure rfl] at whole
  simpa [Program.text, Program.emptyCalls, isProcedure, Variables.localChars,
    Variables.paramChars] using whole

theorem reprints_procedures (n : Nat) : ReprintsProcedures (Procedures unbroken n) := by
  induction n with
  | zero =>
      intro script rest values impossible
      exact impossible.elim
  | succ n nested =>
      intro script rest values read written other begun
      induction read with
      | stop _ =>
          refine ⟨[], .stop (not_faces_of_faces ?_ begun), leads_nil⟩
          intro kind
          cases kind <;> decide
      | @more keyword front back rest first others opens head tail induction =>
          rw [Script.written_read, Script.written_append] at written
          obtain ⟨keywordWritten, frontWritten, backWritten⟩ := written
          obtain ⟨behind, series, leads⟩ := induction backWritten
          obtain ⟨script, read, printed⟩ := reprints_procedure nested head
            (of_decide_eq_true opens) keywordWritten frontWritten (behind.tokens ++ other)
          refine ⟨_, .more opens read series, ?_⟩
          have whole := printed.leads.append leads
          simpa [Program.texts, Program.emptyCallsIn] using whole

/-- An `end` is cut off in front of the final point. -/
theorem printed_program_end {endWord dot : Token} (endWritten : endWord.IsWritten)
    (ends : endWord.kind = .endKw) (dotWritten : dot.IsWritten) (isDot : dot.kind = .dot) :
    Printed "end.".toList 0 [.read endWord, .read dot] := by
  have point : Printed ['.'] 0 [.read dot] := .lone dotWritten isDot rfl (by decide) .nil
  refine ⟨?_, rfl⟩
  intro more words before spells
  have cuts : Cuts endWord.kind "end".toList ('.' :: more) := by
    refine ⟨'e', ['n', 'd'], rfl, by decide, by decide, by simp [ends], ?_⟩
    have word := @word_before ('.' :: more) 'e' ['n', 'd'] (List.all_eq_true.mp rfl)
      (before_cons (by decide))
    rw [ends]
    exact word.trans (by congr 1)
  have whole := Spells.cons cuts (point.spells more words before spells)
  have lexeme : endWord.lexeme = "end" := endWritten.eq_spelling ends rfl
  rw [← lexeme, endWord.of_text_to_list, lexeme] at whole
  simpa using whole

theorem reprints_program {n : Nat} {script : Script} {rest : List Token} {value : Program}
    (read : WholeProgram unbroken n script rest value) (written : script.Written) :
    ∃ script, WholeProgram unbroken n script rest value ∧
      Printed value.text.toList value.emptyCalls script := by
  obtain @⟨keyword, name, semicolon, opening, _, _, _, _, locals, procedures, list, isProgram,
    isName, closes, declared, defined, done⟩ := read
  obtain @⟨_, endWord, _, _, _, _, opens, innermost, ends, dot, _, rfl, isDot, rfl, -⟩ := done
  simp only [Script.written_read, Script.written_append] at written
  obtain ⟨keywordWritten, nameWritten, semicolonWritten, varsWritten, innerWritten, openingWritten,
    listWritten, endWritten, dotWritten, -⟩ := written
  obtain ⟨commands, readCommands, leadsCommands⟩ := @reprints_commands n (reprints_command n) _ _ _
    innermost listWritten (endWord :: dot :: rest) (by simp [ends])
  have readBody : BodyOf (Body unbroken n) (after (· = .dot) fun _ => silent ())
      (.read opening :: (commands ++ [.read endWord, .read dot])) rest (opening, list) :=
    .intro opens readCommands ends ⟨dot, [], rfl, isDot, rfl, rfl⟩
  have printedBody := Printed.keyword openingWritten opens rfl (soft_inner_chars _ _)
    (leadsCommands _ _ _
      (printed_program_end endWritten ends dotWritten (of_decide_eq_true isDot)))
  obtain ⟨inner, readInner, leadsInner⟩ := reprints_procedures n _ _ _ defined innerWritten
    (opening :: (commands.tokens ++ endWord :: dot :: rest)) (by simp [opens])
  obtain ⟨vars, readVars, leadsVars⟩ := @reprints_var_section _ _ _ declared varsWritten
    (inner.tokens ++ opening :: (commands.tokens ++ endWord :: dot :: rest))
    (procedures_starts readInner (by simp [opens]))
  refine ⟨_, .intro isProgram isName closes (by simpa using readVars) (by simpa using readInner)
    readBody, ?_⟩
  have whole := Printed.spaced keywordWritten (Printed.word nameWritten (soft_cons (by decide))
    (.lone (c := ';') semicolonWritten closes rfl (by decide)
      (leadsVars _ _ _ (leadsInner _ _ _ printedBody)).blank))
  rw [keywordWritten.eq_spelling isProgram rfl] at whole
  rw [Program.text]
  simpa [Program.emptyCalls, isProgram, Variables.localChars, Command.block_text_to_list] using whole

end Phrase

end TinyPascal
