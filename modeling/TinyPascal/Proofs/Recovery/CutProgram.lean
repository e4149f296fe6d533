import TinyPascal.Proofs.Recovery.CutCommand

/-!
# Cutting a command out of a program
-/

namespace TinyPascal

set_option autoImplicit false

namespace Phrase

variable {n : Nat} {lost : Command} {script : Script} {rest : List Token}

theorem isolated_body {whole left : List Command} (without : Command.AllWithout lost whole left)
    (read : Body unbroken n script rest whole) (ended : faces (· = .endKw) rest = true) :
    Isolated lost script rest fun broken m script => Body broken m script rest left := by
  cases without with
  | element front behind => exact (replaceable_body read ended rfl).isolated
  | inside front behind inner =>
      exact (replaceable_body read ended rfl).isolated_inside (cut_command inner n)

theorem isolated_body_of {closing : Phrase Unit} {opening : Token} {whole left : List Command}
    (without : Command.AllWithout lost whole left)
    (read : BodyOf (Body unbroken n) closing script rest (opening, whole)) :
    Isolated lost script rest fun broken m replaced =>
      SameHead (script.tokens ++ rest) (replaced.tokens ++ rest) ∧
        BodyOf (Body broken m) closing replaced rest (opening, left) := by
  cases read with
  | @intro _ endWord front back _ _ opens inner ends closes =>
      refine @Isolated.within lost [.read opening] front (.read endWord :: back) rest _ _
        (isolated_body without inner (by simp [ends])) ?_
      intro broken m replaced short each
      simp only [List.cons_append, List.nil_append, Script.tokens_read, Script.tokens_append,
        List.length_cons, List.length_append] at short
      exact ⟨.cons _ _ _, .intro opens (each m (by omega)) ends closes⟩

/-- What loses a command inside a procedure. -/
def ProcedureLoses (lost : Command) (whole left : Program) : Prop :=
  ∀ n keyword script rest,
    ProcedureOf (Procedures unbroken n) (Body unbroken n) keyword script rest whole →
    Isolated lost script rest fun broken m script =>
      ProcedureOf (Procedures broken m) (Body broken m) keyword script rest left

theorem isolated_series {whole left : Program} (loses : ProcedureLoses lost whole left)
    {values front behind : List Program}
    (series : Series (· = .procedureKw) (ProcedureOf (Procedures unbroken n) (Body unbroken n))
      script rest values)
    (listed : values = front ++ whole :: behind) :
    Isolated lost script rest fun broken m replaced =>
      SameHead (script.tokens ++ rest) (replaced.tokens ++ rest) ∧
        Procedures broken m replaced rest (front ++ left :: behind) := by
  induction series generalizing front with
  | stop => cases front <;> cases listed
  | @more keyword first back rest value others opens head tail induction =>
      cases front with
      | nil =>
          obtain ⟨rfl, rfl⟩ := List.cons.inj listed
          refine @Isolated.within lost [.read keyword] first back rest _ _
            (loses n keyword _ _ head) ?_
          intro broken m replaced short each
          obtain ⟨m, rfl⟩ := bound_succ short
          simp only [List.cons_append, List.nil_append, Script.tokens_read, Script.tokens_append,
            List.length_cons, List.length_append] at short
          have series : Procedures broken (m + 1) (.read keyword :: (replaced ++ back)) rest
              (left :: others) :=
            .more opens (each m (by omega))
              (moves_series (moves_procedure (moves_procedures n m) n) _ _ _ _ tail (by omega) rfl)
          exact ⟨.cons _ _ _, series⟩
      | cons _ front =>
          obtain ⟨rfl, further⟩ := List.cons.inj listed
          apply @Isolated.behind lost (.read keyword :: first) back rest _ _ (induction further)
          intro broken m replaced short each
          obtain ⟨m, rfl⟩ := bound_succ short
          simp only [List.cons_append, Script.tokens_read, Script.tokens_append, List.length_cons,
            List.length_append] at short
          obtain ⟨same, series⟩ := each (m + 1) (by omega)
          exact ⟨.cons _ _ _, .more opens
            (moves_procedure (moves_procedures n m) n keyword _ _ _ _ head (by omega) same) series⟩

theorem isolated_procedures {whole left : Program} (loses : ProcedureLoses lost whole left)
    {front behind : List Program}
    (read : Procedures unbroken n script rest (front ++ whole :: behind)) :
    Isolated lost script rest fun broken m replaced =>
      SameHead (script.tokens ++ rest) (replaced.tokens ++ rest) ∧
        Procedures broken m replaced rest (front ++ left :: behind) := by
  cases n with
  | zero => exact read.elim
  | succ n => exact isolated_series loses read rfl

theorem procedure_loses {whole left : Program} (without : Program.Without lost whole left) :
    ProcedureLoses lost whole left := by
  induction without with
  | body program inner =>
      intro n keyword script rest read
      cases read with
      | @intro header vars procedures body _ name opening params locals _ _ head declared defined
          done =>
          have same : header ++ (vars ++ (procedures ++ body)) =
              (header ++ (vars ++ procedures)) ++ body := by simp
          rw [same]
          apply (isolated_body_of inner done).behind
          intro broken m replaced short each
          simp only [List.append_assoc] at short ⊢
          simp only [Script.tokens_append, List.length_append] at short
          obtain ⟨same, done⟩ := each m (by omega)
          exact .intro
            (moves_procedure_header m _ _ _ _ head (by omega) ((same.append _).append _))
            (moves_var_section m _ _ _ _ declared (by omega) (same.append _))
            (moves_procedures n m _ _ _ _ defined (by omega) same) done
  | procedure program front behind inner induction =>
      intro n keyword script rest read
      cases read with
      | @intro header vars procedures body _ name opening params locals _ _ head declared defined
          done =>
          have same : header ++ (vars ++ (procedures ++ body)) =
              (header ++ vars) ++ (procedures ++ body) := by simp
          rw [same]
          apply (isolated_procedures induction defined).within
          intro broken m replaced short each
          simp only [List.append_assoc] at short ⊢
          simp only [Script.tokens_append, List.length_append] at short
          obtain ⟨same, defined⟩ := each m (by omega)
          exact .intro
            (moves_procedure_header m _ _ _ _ head (by omega) (same.append _))
            (moves_var_section m _ _ _ _ declared (by omega) same) defined
            (moves_body_of (moves_procedure_end m) n _ _ _ _ done (by omega) rfl)

theorem moves_program_end (bound : Nat) :
    Moves (after (· = .dot) fun _ => silent ()) (after (· = .dot) fun _ => silent ()) bound := by
  rintro script rest other value ⟨dot, back, rfl, isDot, read⟩ short same
  exact ⟨dot, back, rfl, isDot, read⟩

theorem isolated_program {whole left : Program} (without : Program.Without lost whole left)
    (read : WholeProgram unbroken n script rest whole) :
    Isolated lost script rest fun broken m replaced => WholeProgram broken m replaced rest left := by
  cases without with
  | body program inner =>
      obtain ⟨keyword, name, _, _, _, _, _⟩ := program
      cases read with
      | @intro _ _ semicolon _ vars procedures body _ _ _ _ isProgram isName closes declared defined
          done =>
          have same : (.read keyword :: .read name :: .read semicolon ::
                (vars ++ (procedures ++ body)) : Script) =
              (.read keyword :: .read name :: .read semicolon :: (vars ++ procedures)) ++ body := by
            simp
          rw [same]
          apply (isolated_body_of inner done).behind
          intro broken m replaced short each
          simp only [List.cons_append, List.append_assoc] at short ⊢
          simp only [Script.tokens_read, Script.tokens_append, List.length_cons,
            List.length_append] at short
          obtain ⟨same, done⟩ := each m (by omega)
          exact .intro isProgram isName closes
            (moves_var_section m _ _ _ _ declared (by omega) (same.append _))
            (moves_procedures n m _ _ _ _ defined (by omega) same) done
  | procedure program front behind inner =>
      obtain ⟨keyword, name, _, _, _, _, _⟩ := program
      cases read with
      | @intro _ _ semicolon _ vars procedures body _ _ _ _ isProgram isName closes declared defined
          done =>
          have same : (.read keyword :: .read name :: .read semicolon ::
                (vars ++ (procedures ++ body)) : Script) =
              (.read keyword :: .read name :: .read semicolon :: vars) ++ (procedures ++ body) := by
            simp
          rw [same]
          apply (isolated_procedures (procedure_loses inner) defined).within
          intro broken m replaced short each
          simp only [List.cons_append] at short ⊢
          simp only [Script.tokens_read, Script.tokens_append, List.length_cons,
            List.length_append] at short
          obtain ⟨same, defined⟩ := each m (by omega)
          exact .intro isProgram isName closes
            (moves_var_section m _ _ _ _ declared (by omega) same) defined
            (moves_body_of (moves_program_end m) n _ _ _ _ done (by omega) rfl)

end Phrase

end TinyPascal
