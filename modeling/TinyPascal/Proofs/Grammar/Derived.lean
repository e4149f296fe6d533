import TinyPascal.Proofs.Grammar.Rules
import TinyPascal.Proofs.Phrase.Program

/-!
# Whatever is read can be derived

The kinds of the tokens of a phrase form a word of the grammar. A phrase of
commands has one semicolon more than the rule `{ ";" command }` if the last of
them only drew a warning.
-/

namespace TinyPascal

set_option autoImplicit false

def Script.kinds (script : Script) : List Kind := script.tokens.map Token.kind

namespace Script

@[simp]
theorem kinds_nil : kinds [] = [] := rfl

@[simp]
theorem kinds_read (token : Token) (script : Script) :
    kinds (.read token :: script) = token.kind :: kinds script := rfl

@[simp]
theorem kinds_warning (token : Token) (problem : SyntacticProblem) (script : Script) :
    kinds (warning token problem :: script) = kinds script := rfl

@[simp]
theorem kinds_append (first second : Script) :
    kinds (first ++ second) = kinds first ++ kinds second := by
  simp [kinds]

end Script

namespace Grammar

open Phrase

def Derived (name : Nonterminal) (text : List Kind) : Prop := Derives (.ref name) text

theorem derived_of_means {name : Nonterminal} {text : List Kind}
    (meant : Means Derived (rule name) text) : Derived name text :=
  derives_ref meant

variable {script : Script} {rest : List Token} {n : Nat} {α : Type}

theorem repeated_of_series {kinds : Kind → Bool} {item : Token → Phrase α}
    {inner : List Kind → Prop} {values : List α}
    (each : ∀ opening script rest value, item opening script rest value → inner script.kinds)
    (series : Series kinds item script rest values) :
    Repeated (Opened kinds inner) script.kinds := by
  induction series with
  | stop ended => exact .stop
  | @more opening front back rest first others opens head tail induction =>
      rw [Script.kinds_read, Script.kinds_append, ← List.cons_append]
      exact .more ⟨opening.kind, front.kinds, rfl, opens, each _ _ _ _ head⟩ induction

section Expressions

variable {factor : Phrase Expr} {value : Expr}

theorem term_derived
    (each : ∀ script rest value, factor script rest value → Derived .factor script.kinds)
    (read : Term factor script rest value) : Derived .term script.kinds := by
  obtain ⟨head, tail⟩ := read
  refine derived_of_means (means_term.mpr ⟨_, _, Script.kinds_append _ _, each _ _ _ head, ?_⟩)
  exact repeated_of_series (fun _ _ _ _ link => each _ _ _ link.2) tail

theorem simple_derived
    (each : ∀ script rest value, factor script rest value → Derived .factor script.kinds)
    (read : Simple factor script rest value) : Derived .simpleExpr script.kinds := by
  apply derived_of_means
  apply means_simple_expr.mpr
  cases read with
  | unsigned bare head tail =>
      exact ⟨[], _, _, Script.kinds_append _ _, .inl rfl, term_derived each head,
        repeated_of_series (fun _ _ _ _ link => term_derived each link.2) tail⟩
  | @signed sign _ _ _ _ _ isSign head tail =>
      exact ⟨[sign.kind], _, _, by simp, .inr ⟨_, isSign, rfl⟩, term_derived each head,
        repeated_of_series (fun _ _ _ _ link => term_derived each link.2) tail⟩

theorem whole_derived
    (each : ∀ script rest value, factor script rest value → Derived .factor script.kinds)
    (script : Script) (rest : List Token) (value : Expr) (read : Whole factor script rest value) :
    Derived .expr script.kinds := by
  apply derived_of_means
  apply means_expr.mpr
  cases read with
  | plain only ended =>
      exact ⟨_, [], (List.append_nil _).symm, simple_derived each only, .inl rfl⟩
  | compared before relates after =>
      exact ⟨_, _, Script.kinds_append _ _, simple_derived each before,
        .inr ⟨_, _, rfl, relates, simple_derived each after⟩⟩

theorem arguments_derived {expr : Phrase Expr} {args : List Expr}
    (each : ∀ script rest value, expr script rest value → Derived .expr script.kinds)
    (read : Arguments expr script rest args) : Derived .arguments script.kinds := by
  apply derived_of_means
  apply means_arguments.mpr
  cases read with
  | empty opens closes => exact ⟨[], by simp [opens, closes], .inl rfl⟩
  | @listed opening closing inner rest args opens given list closes =>
      refine ⟨inner.kinds, by simp [opens, closes], .inr ?_⟩
      obtain ⟨head, tail⟩ := list
      exact ⟨_, _, Script.kinds_append _ _, each _ _ _ head,
        repeated_of_series (fun _ _ _ _ => each _ _ _) tail⟩

theorem factor_derived (n : Nat) (script : Script) (rest : List Token) (value : Expr)
    (read : Factor n script rest value) : Derived .factor script.kinds := by
  induction n generalizing script rest value with
  | zero => exact read.elim
  | succ n induction =>
      apply derived_of_means
      apply means_factor.mpr
      have inner := whole_derived induction
      cases read with
      | literal isLiteral => exact .inl ⟨_, isLiteral, rfl⟩
      | negation negates operand =>
          exact .inr (.inl ⟨_, by rw [Script.kinds_read, negates], induction _ _ _ operand⟩)
      | parentheses opens whole closes =>
          exact .inr (.inr (.inl ⟨_, by simp [opens, closes], inner _ _ _ whole⟩))
      | name isName bare =>
          exact .inr (.inr (.inr ⟨[], by rw [Script.kinds_read, isName]; rfl, .inl rfl⟩))
      | call isName given =>
          exact .inr (.inr (.inr ⟨_, by rw [Script.kinds_read, isName],
            .inr (arguments_derived inner given)⟩))

theorem expression_derived (n : Nat) (script : Script) (rest : List Token) (value : Expr)
    (read : Expression n script rest value) : Derived .expr script.kinds :=
  whole_derived (factor_derived n) script rest value read

end Expressions

section Commands

variable {command : Phrase Command}

/-- Only the last semicolon can be one too many. -/
theorem repeated_of_behind {values : List (Option Command)}
    (each : ∀ script rest value, command script rest value → Derived .command script.kinds)
    (series : Series (· = .semicolon) (Behind (Element unbroken command)) script rest values) :
    ∃ others last, script.kinds = others ++ last ∧
      Repeated (Opened (· = .semicolon) (Derived .command)) others ∧
      (last = [] ∨ last = [.semicolon]) := by
  induction series with
  | stop ended => exact ⟨[], [], rfl, .stop, .inl rfl⟩
  | @more opening front back rest first _ opens head tail induction =>
      rcases head with ⟨ended, _, rfl, rfl, rfl⟩ | ⟨-, ⟨value, -, read⟩ | ⟨impossible, -⟩⟩
      · cases tail with
        | stop _ => exact ⟨[], [.semicolon], by simpa using opens, .stop, .inr rfl⟩
        | more again => simp_all
      · obtain ⟨others, last, same, repeated, closed⟩ := induction
        refine ⟨opening.kind :: front.kinds ++ others, last, by simp [same], ?_, closed⟩
        exact .more ⟨_, _, rfl, opens, each _ _ _ read⟩ repeated
      · exact impossible.elim

theorem commands_derived {values : List Command}
    (each : ∀ script rest value, command script rest value → Derived .command script.kinds)
    (read : Commands (Element unbroken command) script rest values) :
    Derived .commands script.kinds := by
  apply derived_of_means
  apply means_commands.mpr
  cases read with
  | none ended => exact .inl rfl
  | some begun head tail =>
      rcases head with ⟨value, -, first⟩ | ⟨impossible, -⟩
      · obtain ⟨others, last, same, repeated, closed⟩ := repeated_of_behind each tail
        exact .inr ⟨_, others, last, by rw [Script.kinds_append, same], each _ _ _ first, repeated,
          closed⟩
      · exact impossible.elim

theorem command_derived (n : Nat) (script : Script) (rest : List Token) (value : Command)
    (read : SingleCommand unbroken n script rest value) : Derived .command script.kinds := by
  induction n generalizing script rest value with
  | zero => exact read.elim
  | succ n induction =>
      apply derived_of_means
      apply means_command.mpr
      have expr := expression_derived n
      cases read with
      | assign isName assigns right =>
          exact .inl ⟨_, by simp [isName, assigns], expr _ _ _ right⟩
      | bareCall isName _ _ => exact .inr (.inl ⟨[], by simp [isName], .inl rfl⟩)
      | call isName given =>
          exact .inr (.inl ⟨_, by simp [isName], .inr (arguments_derived expr given)⟩)
      | block opens inner closes =>
          exact .inr (.inr (.inl ⟨_, by simp [opens, closes], commands_derived induction inner⟩))
      | ifThen isIf test isThen yes alone =>
          exact .inr (.inr (.inr (.inl ⟨_, _, [], by simp [isIf, isThen], expr _ _ _ test,
            induction _ _ _ yes, .inl rfl⟩)))
      | ifElse isIf test isThen yes isElse no =>
          exact .inr (.inr (.inr (.inl ⟨_, _, _, by simp [isIf, isThen, isElse], expr _ _ _ test,
            induction _ _ _ yes, .inr ⟨_, rfl, induction _ _ _ no⟩⟩)))
      | whileDo isWhile test isDo repeated =>
          exact .inr (.inr (.inr (.inr (.inl ⟨_, _, by simp [isWhile, isDo], expr _ _ _ test,
            induction _ _ _ repeated⟩))))
      | forDo isFor isName assigns begins isTo upTo isDo repeated =>
          exact .inr (.inr (.inr (.inr (.inr ⟨_, _, _, _, by simp [isFor, isName, assigns, isDo],
            expr _ _ _ begins, isTo, expr _ _ _ upTo, induction _ _ _ repeated⟩))))

end Commands

section Declarations

theorem group_derived {first : Token} {declaration : Declaration}
    (read : Group first script rest declaration) :
    Means Derived Ebnf.group (.ident :: script.kinds) := by
  obtain @⟨colon, type, names, _, others, list, isColon, isType⟩ := read
  refine means_group.mpr ⟨.ident :: names.kinds, type.kind, by simp [isColon], ?_, isType⟩
  refine derived_of_means (means_ident_list.mpr ⟨_, rfl, ?_⟩)
  refine repeated_of_series ?_ list
  rintro opening script rest value ⟨rfl, isName⟩
  simpa using isName

theorem variable_group_derived {first : Token} {declaration : Declaration}
    (read : VariableGroup first script rest declaration) :
    ClosedGroup Derived (.ident :: script.kinds) := by
  obtain ⟨group, closes⟩ := read
  exact ⟨_, by simp [closes], group_derived group⟩

theorem param_group_derived {declaration : Declaration} (read : ParamGroup script rest declaration) :
    Means Derived Ebnf.group script.kinds := by
  obtain ⟨isName, group⟩ := read
  rw [Script.kinds_read, isName]
  exact group_derived group

theorem variable_groups_derived {groups : List Declaration}
    (read : Series (· = .ident) VariableGroup script rest groups) :
    Repeated (ClosedGroup Derived) script.kinds := by
  induction read with
  | stop ended => exact .stop
  | @more opening front back rest first others opens head tail induction =>
      have isName : opening.kind = .ident := of_decide_eq_true opens
      rw [Script.kinds_read, Script.kinds_append, isName, ← List.cons_append]
      exact .more (variable_group_derived head) induction

theorem var_section_derived {vars : Option Variables} (read : VarSection script rest vars) :
    script.kinds = [] ∨ Derived .varDecl script.kinds := by
  cases read with
  | none absent => exact .inl rfl
  | some isVar named series =>
      refine .inr (derived_of_means (means_var_decl.mpr ?_))
      cases series with
      | stop ended => exact absurd (ended.symm.trans named) Bool.false_ne_true
      | @more opening front back _ first others opens head tail =>
          have isName : opening.kind = .ident := of_decide_eq_true opens
          exact ⟨.ident :: front.kinds, back.kinds, by simp [isVar, isName],
            variable_group_derived head, variable_groups_derived tail⟩

theorem optional_params_derived {params : Option Variables}
    (read : OptionalParams script rest params) :
    script.kinds = [] ∨ ∃ given, script.kinds = .lparen :: (given ++ [.rparen]) ∧
      (given = [] ∨ Derived .params given) := by
  rcases read with ⟨opening, _, rfl, opens, listed⟩ | ⟨-, rfl, -⟩
  · have isOpening : opening.kind = .lparen := of_decide_eq_true opens
    cases listed with
    | empty closes => exact .inr ⟨[], by simp [isOpening, closes], .inl rfl⟩
    | @listed _ front back _ _ _ head tail closes =>
        refine .inr ⟨front.kinds ++ back.kinds, by simp [isOpening, closes],
          .inr (derived_of_means (means_params.mpr ⟨_, _, rfl, param_group_derived head, ?_⟩))⟩
        exact repeated_of_series (fun _ _ _ _ => param_group_derived) tail
  · exact .inl rfl

end Declarations

theorem body_of_derived {closing : Phrase Unit} {read : Token × List Command}
    (done : BodyOf (Body unbroken n) closing script rest read) :
    ∃ commands back, script.kinds = .beginKw :: (commands ++ .endKw :: Script.kinds back) ∧
      Derived .commands commands ∧ closing back rest () := by
  obtain @⟨opening, endWord, front, back, _, list, opens, inner, ends, closes⟩ := done
  exact ⟨front.kinds, back, by simp [opens, ends], commands_derived (command_derived n) inner,
    closes⟩

theorem procedure_end_derived (read : ProcedureEnd script rest ()) :
    script.kinds = [] ∨ script.kinds = [.semicolon] := by
  cases read with
  | closed closes => exact .inr (by simp [closes])
  | unclosed other => exact .inl rfl

theorem procedure_derived {nested : Phrase (List Program)} {keyword : Token} {value : Program}
    (each : ∀ script rest values, nested script rest values →
      Repeated (Derived .procedure) script.kinds)
    (read : ProcedureOf nested (Body unbroken n) keyword script rest value) :
    Derived .procedure (.procedureKw :: script.kinds) := by
  obtain @⟨header, vars, inner, body, _, name, opening, params, locals, procedures, list, head,
    declared, defined, done⟩ := read
  obtain @⟨_, semicolon, given, _, _, isName, listed, closes⟩ := head
  obtain ⟨commands, back, same, derived, ended⟩ := body_of_derived done
  refine derived_of_means (means_procedure.mpr ⟨given.kinds,
    vars.kinds ++ (inner.kinds ++ .beginKw :: (commands ++ [.endKw])), back.kinds, ?_,
    optional_params_derived listed, ?_, procedure_end_derived ended⟩)
  · simp [isName, closes, same]
  · exact means_block.mpr ⟨_, _, _, rfl, var_section_derived declared, each _ _ _ defined, derived⟩

theorem procedures_derived (n : Nat) (script : Script) (rest : List Token) (values : List Program)
    (read : Procedures unbroken n script rest values) :
    Repeated (Derived .procedure) script.kinds := by
  induction n generalizing script rest values with
  | zero => exact read.elim
  | succ n nested =>
      unfold Procedures at read
      induction read with
      | stop ended => exact .stop
      | @more opening front back _ _ _ opens head tail induction =>
          have isKeyword : opening.kind = .procedureKw := of_decide_eq_true opens
          rw [Script.kinds_read, Script.kinds_append, isKeyword, ← List.cons_append]
          exact .more (procedure_derived nested head) induction

theorem program_derived {value : Program} (read : WholeProgram unbroken n script rest value) :
    Derived .program script.kinds := by
  obtain @⟨keyword, name, semicolon, opening, vars, inner, body, _, locals, procedures, list,
    isProgram, isName, closes, declared, defined, done⟩ := read
  obtain ⟨commands, back, same, derived, dot, _, rfl, isDot, rfl, -⟩ := body_of_derived done
  have isDot : dot.kind = .dot := of_decide_eq_true isDot
  refine derived_of_means (means_program.mpr
    ⟨vars.kinds ++ (inner.kinds ++ .beginKw :: (commands ++ [.endKw])), ?_, ?_⟩)
  · simp [isProgram, isName, closes, same, isDot]
  · exact means_block.mpr ⟨_, _, _, rfl, var_section_derived declared,
      procedures_derived n _ _ _ defined, derived⟩

end Grammar

end TinyPascal
