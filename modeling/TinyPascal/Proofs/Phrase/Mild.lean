import TinyPascal.Proofs.Phrase.Program

/-!
# Where nothing is broken there are only warnings
-/

namespace TinyPascal

set_option autoImplicit false

/-- No remark is an error. -/
def Script.Mild (script : Script) : Prop := ∀ remark ∈ script.remarks, remark.severity = .warning

namespace Script

theorem mild_nil : Mild [] := by
  intro remark member
  cases member

@[simp]
theorem mild_read {token : Token} {script : Script} :
    Mild (.read token :: script) ↔ Mild script := Iff.rfl

@[simp]
theorem mild_warning {token : Token} {problem : SyntacticProblem} {script : Script} :
    Mild (warning token problem :: script) ↔ Mild script := by
  simp [Mild, Diagnostic.about]

@[simp]
theorem mild_append {first second : Script} :
    Mild (first ++ second) ↔ Mild first ∧ Mild second := by
  simp [Mild, or_imp, forall_and]

theorem Mild.no_error {script : Script} (mild : Mild script) :
    script.remarks.any Diagnostic.isError = false := by
  apply List.any_eq_false.mpr
  intro remark member
  simp [Diagnostic.isError, mild remark member]

end Script

namespace Phrase

def Mild {α : Type} (phrase : Phrase α) : Prop :=
  ∀ script rest value, phrase script rest value → script.Mild

variable {α : Type} {factor expr : Phrase Expr} {command : Phrase Command}

theorem mild_series {kinds : Kind → Bool} {item : Token → Phrase α}
    (each : ∀ opening, (item opening).Mild) : (Series kinds item).Mild := by
  intro script rest values series
  induction series with
  | stop => exact Script.mild_nil
  | more _ head _ induction =>
      rw [Script.mild_read, Script.mild_append]
      exact ⟨each _ _ _ _ head, induction⟩

theorem mild_link {operand : Phrase Expr} (each : operand.Mild) (op : Token) :
    (Link operand op).Mild := by
  intro script rest link read
  exact each _ _ _ read.2

theorem mild_term (each : factor.Mild) : (Term factor).Mild := by
  rintro _ _ _ ⟨head, tail⟩
  rw [Script.mild_append]
  exact ⟨each _ _ _ head, mild_series (mild_link each) _ _ _ tail⟩

theorem mild_simple (each : factor.Mild) : (Simple factor).Mild := by
  intro script rest value read
  have terms := mild_term each
  cases read with
  | unsigned _ head tail | signed _ head tail =>
      simp only [Script.mild_read, Script.mild_append]
      exact ⟨terms _ _ _ head, mild_series (mild_link terms) _ _ _ tail⟩

theorem mild_whole (each : factor.Mild) : (Whole factor).Mild := by
  intro script rest value read
  have simples := mild_simple each
  cases read with
  | plain only _ => exact simples _ _ _ only
  | compared before _ after =>
      rw [Script.mild_append, Script.mild_read]
      exact ⟨simples _ _ _ before, simples _ _ _ after⟩

theorem mild_arguments (each : expr.Mild) : (Arguments expr).Mild := by
  intro script rest args read
  cases read with
  | empty => simp [Script.mild_nil]
  | listed _ _ list =>
      obtain ⟨head, tail⟩ := list
      simp only [Script.mild_read, Script.mild_append, Script.mild_nil, and_true]
      exact ⟨each _ _ _ head, mild_series (fun _ => each) _ _ _ tail⟩

theorem mild_factor (n : Nat) : (Factor n).Mild := by
  induction n with
  | zero =>
      intro script rest value impossible
      exact impossible.elim
  | succ n induction =>
      intro script rest value read
      cases read with
      | literal | name => simp [Script.mild_nil]
      | negation _ inner =>
          rw [Script.mild_read]
          exact induction _ _ _ inner
      | parentheses _ inner _ =>
          simp only [Script.mild_read, Script.mild_append, Script.mild_nil, and_true]
          exact mild_whole induction _ _ _ inner
      | call _ given =>
          rw [Script.mild_read]
          exact mild_arguments (mild_whole induction) _ _ _ given

theorem mild_expression (n : Nat) : (Expression n).Mild := mild_whole (mild_factor n)

theorem mild_behind (each : command.Mild) (semicolon : Token) :
    (Behind (Element unbroken command) semicolon).Mild := by
  rintro script rest value (⟨-, _, rfl, rfl, -⟩ | ⟨-, ⟨read, -, offered⟩ | ⟨impossible, -⟩⟩)
  · simp [Script.mild_nil]
  · exact each _ _ _ offered
  · exact impossible.elim

theorem mild_commands (each : command.Mild) : (Commands (Element unbroken command)).Mild := by
  intro script rest values read
  cases read with
  | none => exact Script.mild_nil
  | some _ head tail =>
      rcases head with ⟨first, -, offered⟩ | ⟨impossible, -⟩
      · rw [Script.mild_append]
        exact ⟨each _ _ _ offered, mild_series (mild_behind each) _ _ _ tail⟩
      · exact impossible.elim

theorem mild_command (n : Nat) : (SingleCommand unbroken n).Mild := by
  induction n with
  | zero =>
      intro script rest value impossible
      exact impossible.elim
  | succ n induction =>
      intro script rest value read
      have exprs := mild_expression n
      cases read with
      | bareCall => simp [Script.mild_nil]
      | assign _ _ right =>
          simp only [Script.mild_read]
          exact exprs _ _ _ right
      | call _ given =>
          rw [Script.mild_read]
          exact mild_arguments exprs _ _ _ given
      | block _ inner _ =>
          simp only [Script.mild_read, Script.mild_append, Script.mild_nil, and_true]
          exact mild_commands induction _ _ _ inner
      | ifThen _ test _ yes =>
          simp only [Script.mild_read, Script.mild_append]
          exact ⟨exprs _ _ _ test, induction _ _ _ yes⟩
      | ifElse _ test _ yes _ no =>
          simp only [Script.mild_read, Script.mild_append]
          exact ⟨exprs _ _ _ test, induction _ _ _ yes, induction _ _ _ no⟩
      | whileDo _ test _ repeated =>
          simp only [Script.mild_read, Script.mild_append]
          exact ⟨exprs _ _ _ test, induction _ _ _ repeated⟩
      | forDo _ _ _ begins _ upTo _ repeated =>
          simp only [Script.mild_read, Script.mild_append]
          exact ⟨exprs _ _ _ begins, exprs _ _ _ upTo, induction _ _ _ repeated⟩

theorem mild_body (n : Nat) : (Body unbroken n).Mild := mild_commands (mild_command n)

theorem mild_one (kinds : Kind → Bool) : (one kinds).Mild := by
  rintro script rest value ⟨rfl, -⟩
  simp [Script.mild_nil]

theorem mild_group (first : Token) : (Group first).Mild := by
  rintro _ _ _ ⟨names, -, -⟩
  simp only [Script.mild_append, Script.mild_read, Script.mild_nil, and_true]
  exact mild_series (fun _ => mild_one _) _ _ _ names

theorem mild_variable_group (first : Token) : (VariableGroup first).Mild := by
  rintro _ _ _ ⟨group, -⟩
  simp only [Script.mild_append, Script.mild_read, Script.mild_nil, and_true]
  exact mild_group first _ _ _ group

theorem mild_param_group : ParamGroup.Mild := by
  rintro _ _ _ ⟨-, group⟩
  rw [Script.mild_read]
  exact mild_group _ _ _ _ group

theorem mild_var_section : VarSection.Mild := by
  intro script rest vars read
  cases read with
  | none => exact Script.mild_nil
  | some _ _ groups =>
      rw [Script.mild_read]
      exact mild_series mild_variable_group _ _ _ groups

theorem mild_params (opening : Token) : (Params opening).Mild := by
  intro script rest vars read
  cases read with
  | empty => simp [Script.mild_nil]
  | listed head tail _ =>
      simp only [Script.mild_append, Script.mild_read, Script.mild_nil, and_true]
      exact ⟨mild_param_group _ _ _ head, mild_series (fun _ => mild_param_group) _ _ _ tail⟩

theorem mild_procedure_header : ProcedureHeader.Mild := by
  rintro _ _ _ ⟨-, given, -⟩
  simp only [Script.mild_append, Script.mild_read, Script.mild_nil, and_true]
  rcases given with ⟨opening, back, rfl, -, listed⟩ | ⟨-, rfl, -⟩
  · rw [Script.mild_read]
    exact mild_params opening _ _ _ listed
  · exact Script.mild_nil

theorem mild_procedure_end : ProcedureEnd.Mild := by
  intro script rest value read
  cases read with
  | closed | unclosed => simp [Script.mild_nil]

theorem mild_body_of {n : Nat} {closing : Phrase Unit} (each : closing.Mild) :
    (BodyOf (Body unbroken n) closing).Mild := by
  rintro _ _ _ ⟨-, inner, -, closes⟩
  simp only [Script.mild_append, Script.mild_read]
  exact ⟨mild_body n _ _ _ inner, each _ _ _ closes⟩

theorem mild_procedure {n : Nat} {nested : Phrase (List Program)} (each : nested.Mild)
    (keyword : Token) : (ProcedureOf nested (Body unbroken n) keyword).Mild := by
  rintro _ _ _ ⟨head, declared, defined, done⟩
  simp only [Script.mild_append]
  exact ⟨mild_procedure_header _ _ _ head, mild_var_section _ _ _ declared, each _ _ _ defined,
    mild_body_of mild_procedure_end _ _ _ done⟩

theorem mild_procedures (n : Nat) : (Procedures unbroken n).Mild := by
  induction n with
  | zero =>
      intro script rest value impossible
      exact impossible.elim
  | succ n induction => exact mild_series (mild_procedure induction)

theorem mild_point : (after (· = .dot) fun _ => silent ()).Mild := by
  rintro script rest value ⟨dot, _, rfl, -, rfl, -⟩
  simp [Script.mild_nil]

theorem mild_program (n : Nat) : (WholeProgram unbroken n).Mild := by
  rintro _ _ _ ⟨-, -, -, declared, defined, done⟩
  simp only [Script.mild_append, Script.mild_read]
  exact ⟨mild_var_section _ _ _ declared, mild_procedures n _ _ _ defined,
    mild_body_of mild_point _ _ _ done⟩

end Phrase

end TinyPascal
