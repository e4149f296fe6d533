import TinyPascal.Proofs.Phrase.Program

/-!
# A phrase sees one token ahead

What follows a phrase matters only by its first token, and how deep a phrase may
be nested matters only as far as it has tokens.
-/

namespace TinyPascal.Phrase

set_option autoImplicit false

variable {α : Type}

def SameHead (rest other : List Token) : Prop := rest.head? = other.head?

theorem SameHead.append {rest other : List Token} (same : SameHead rest other)
    (tokens : List Token) : SameHead (tokens ++ rest) (tokens ++ other) := by
  unfold SameHead at same ⊢
  rw [List.head?_append, List.head?_append, same]

theorem SameHead.cons (token : Token) (rest other : List Token) :
    SameHead (token :: rest) (token :: other) := rfl

theorem SameHead.faces {rest other : List Token} (same : SameHead rest other)
    (kinds : Kind → Bool) : faces kinds other = faces kinds rest := by
  unfold Phrase.faces
  rw [same]

/-- What is in `phrase`, in fewer than `bound` tokens, is in `target` before
anything that starts alike. -/
def Moves (phrase target : Phrase α) (bound : Nat) : Prop :=
  ∀ script rest other value, phrase script rest value → script.tokens.length < bound →
    SameHead rest other → target script other value

theorem bound_succ {size bound : Nat} (short : size < bound) :
    ∃ smaller, bound = smaller + 1 :=
  Nat.exists_eq_succ_of_ne_zero (Nat.ne_of_gt (Nat.zero_lt_of_lt short))

variable {n m bound : Nat} {factor factor' expr expr' : Phrase Expr}

theorem moves_series {kinds : Kind → Bool} {item item' : Token → Phrase α}
    (each : ∀ opening, Moves (item opening) (item' opening) bound) :
    Moves (Series kinds item) (Series kinds item') (bound + 1) := by
  intro script rest other values series short same
  induction series with
  | stop ended => exact .stop ((same.faces kinds).trans ended)
  | more opens head tail induction =>
      simp only [Script.tokens_read, Script.tokens_append, List.length_cons, List.length_append]
        at short
      exact .more opens (each _ _ _ _ _ head (by omega) (same.append _))
        (induction (by omega) same)

theorem moves_link {operand operand' : Phrase Expr} (each : Moves operand operand' bound)
    (op : Token) : Moves (Link operand op) (Link operand' op) bound := by
  rintro script rest other link ⟨rfl, read⟩ short same
  exact ⟨rfl, each _ _ _ _ read short same⟩

theorem moves_term (each : Moves factor factor' bound) :
    Moves (Term factor) (Term factor') bound := by
  rintro _ rest other _ ⟨head, tail⟩ short same
  rw [Script.tokens_append, List.length_append] at short
  exact .intro (each _ _ _ _ head (by omega) (same.append _))
    (moves_series (moves_link each) _ _ _ _ tail (by omega) same)

theorem moves_simple (each : Moves factor factor' bound) :
    Moves (Simple factor) (Simple factor') bound := by
  intro script rest other value read short same
  have terms := moves_term each
  cases read with
  | unsigned bare head tail =>
      rw [Script.tokens_append, List.length_append] at short
      exact .unsigned ((((same.append _).append _).faces _).trans bare)
        (terms _ _ _ _ head (by omega) (same.append _))
        (moves_series (moves_link terms) _ _ _ _ tail (by omega) same)
  | signed isSign head tail =>
      simp only [Script.tokens_read, Script.tokens_append, List.length_cons, List.length_append]
        at short
      exact .signed isSign (terms _ _ _ _ head (by omega) (same.append _))
        (moves_series (moves_link terms) _ _ _ _ tail (by omega) same)

theorem moves_whole (each : Moves factor factor' bound) :
    Moves (Whole factor) (Whole factor') bound := by
  intro script rest other value read short same
  have simples := moves_simple each
  cases read with
  | plain only ended =>
      exact .plain (simples _ _ _ _ only short same) ((same.faces _).trans ended)
  | compared before relates after =>
      simp only [Script.tokens_read, Script.tokens_append, List.length_cons, List.length_append]
        at short
      exact .compared (simples _ _ _ _ before (by omega) (.cons _ _ _)) relates
        (simples _ _ _ _ after (by omega) same)

theorem moves_arguments (each : Moves expr expr' bound) :
    Moves (Arguments expr) (Arguments expr') bound := by
  intro script rest other args read short same
  cases read with
  | empty opens closes => exact .empty opens closes
  | @listed _ closing _ _ _ opens given list closes =>
      obtain ⟨head, tail⟩ := list
      simp only [Script.tokens_read, Script.tokens_append, List.length_cons, List.length_append]
        at short
      have behind := SameHead.cons closing rest other
      exact .listed opens (((behind.append _).faces _).trans given)
        (.intro (each _ _ _ _ head (by omega) (behind.append _))
          (moves_series (fun _ => each) _ _ _ _ tail (by omega) behind)) closes

theorem moves_factor (n m : Nat) : Moves (Factor n) (Factor m) m := by
  induction n generalizing m with
  | zero =>
      intro script rest other value impossible
      exact impossible.elim
  | succ n induction =>
      intro script rest other value read short same
      obtain ⟨m, rfl⟩ := bound_succ short
      have inner := moves_whole (induction m)
      cases read with
      | literal isLiteral => exact .literal isLiteral
      | negation negates operand =>
          exact .negation negates (induction m _ _ _ _ operand (Nat.lt_of_succ_lt_succ short) same)
      | parentheses opens value closes =>
          simp only [Script.tokens_read, Script.tokens_append, List.length_cons, List.length_append]
            at short
          exact .parentheses opens (inner _ _ _ _ value (by omega) (.cons _ _ _)) closes
      | name isName bare => exact .name isName ((same.faces _).trans bare)
      | call isName given =>
          exact .call isName
            (moves_arguments inner _ _ _ _ given (Nat.lt_of_succ_lt_succ short) same)

theorem moves_expression (n m : Nat) : Moves (Expression n) (Expression m) m :=
  moves_whole (moves_factor n m)

variable {broken : Breakage} {command command' : Phrase Command}

theorem moves_element (each : Moves command command' bound) :
    Moves (Element unbroken command) (Element broken command') bound := by
  rintro script rest other value (⟨read, rfl, offered⟩ | ⟨impossible, -⟩) short same
  · exact .inl ⟨read, rfl, each _ _ _ _ offered short same⟩
  · exact impossible.elim

theorem moves_behind (each : Moves command command' bound) (semicolon : Token) :
    Moves (Behind (Element unbroken command) semicolon) (Behind (Element broken command') semicolon)
      bound := by
  rintro script rest other value (⟨ended, read⟩ | ⟨begun, read⟩) short same
  · exact .inl ⟨((same.append _).faces _).trans ended, read⟩
  · exact .inr ⟨((same.append _).faces _).trans begun, moves_element each _ _ _ _ read short same⟩

theorem moves_commands (each : Moves command command' bound) :
    Moves (Commands (Element unbroken command)) (Commands (Element broken command')) bound := by
  intro script rest other values read short same
  cases read with
  | none ended => exact .none ((same.faces _).trans ended)
  | some begun head tail =>
      rw [Script.tokens_append, List.length_append] at short
      exact .some ((((same.append _).append _).faces _).trans begun)
        (moves_element each _ _ _ _ head (by omega) (same.append _))
        (moves_series (moves_behind each) _ _ _ _ tail (by omega) same)

theorem moves_command (n m : Nat) :
    Moves (SingleCommand unbroken n) (SingleCommand broken m) m := by
  induction n generalizing m with
  | zero =>
      intro script rest other value impossible
      exact impossible.elim
  | succ n induction =>
      intro script rest other value read short same
      obtain ⟨m, rfl⟩ := bound_succ short
      have exprs := moves_expression n m
      cases read with
      | assign isName assigns right =>
          simp only [Script.tokens_read, List.length_cons] at short
          exact .assign isName assigns (exprs _ _ _ _ right (by omega) same)
      | bareCall isName noAssign bare =>
          exact .bareCall isName ((same.faces _).trans noAssign) ((same.faces _).trans bare)
      | call isName given =>
          simp only [Script.tokens_read, List.length_cons] at short
          exact .call isName (moves_arguments exprs _ _ _ _ given (by omega) same)
      | block opens inner closes =>
          simp only [Script.tokens_read, Script.tokens_append, List.length_cons, List.length_append]
            at short
          exact .block opens
            (moves_commands (induction m) _ _ _ _ inner (by omega) (.cons _ _ _)) closes
      | ifThen isIf test isThen yes alone =>
          simp only [Script.tokens_read, Script.tokens_append, List.length_cons, List.length_append]
            at short
          exact .ifThen isIf (exprs _ _ _ _ test (by omega) (.cons _ _ _)) isThen
            (induction m _ _ _ _ yes (by omega) same) ((same.faces _).trans alone)
      | ifElse isIf test isThen yes isElse no =>
          simp only [Script.tokens_read, Script.tokens_append, List.length_cons, List.length_append]
            at short
          exact .ifElse isIf (exprs _ _ _ _ test (by omega) (.cons _ _ _)) isThen
            (induction m _ _ _ _ yes (by omega) (.cons _ _ _)) isElse
            (induction m _ _ _ _ no (by omega) same)
      | whileDo isWhile test isDo repeated =>
          simp only [Script.tokens_read, Script.tokens_append, List.length_cons, List.length_append]
            at short
          exact .whileDo isWhile (exprs _ _ _ _ test (by omega) (.cons _ _ _)) isDo
            (induction m _ _ _ _ repeated (by omega) same)
      | forDo isFor isName assigns begins isTo upTo isDo repeated =>
          simp only [Script.tokens_read, Script.tokens_append, List.length_cons, List.length_append]
            at short
          exact .forDo isFor isName assigns (exprs _ _ _ _ begins (by omega) (.cons _ _ _)) isTo
            (exprs _ _ _ _ upTo (by omega) (.cons _ _ _)) isDo
            (induction m _ _ _ _ repeated (by omega) same)

theorem moves_body (n m : Nat) : Moves (Body unbroken n) (Body broken m) m :=
  moves_commands (moves_command n m)

theorem moves_one (kinds : Kind → Bool) (bound : Nat) : Moves (one kinds) (one kinds) bound := by
  intro script rest other value read short same
  exact read

theorem moves_group (first : Token) (bound : Nat) : Moves (Group first) (Group first) bound := by
  rintro _ rest other _ ⟨names, isColon, isType⟩ short same
  rw [Script.tokens_append, List.length_append] at short
  exact .intro (moves_series (fun _ => moves_one _ bound) _ _ _ _ names (by omega) (.cons _ _ _))
    isColon isType

theorem moves_variable_group (first : Token) (bound : Nat) :
    Moves (VariableGroup first) (VariableGroup first) bound := by
  rintro _ rest other _ ⟨group, closes⟩ short same
  rw [Script.tokens_append, List.length_append] at short
  exact .intro (moves_group first bound _ _ _ _ group (by omega) (.cons _ _ _)) closes

theorem moves_param_group (bound : Nat) : Moves ParamGroup ParamGroup bound := by
  rintro _ rest other _ ⟨isName, group⟩ short same
  exact .intro isName (moves_group _ bound _ _ _ _ group (Nat.lt_of_succ_lt short) same)

theorem moves_var_section (bound : Nat) : Moves VarSection VarSection bound := by
  intro script rest other vars read short same
  cases read with
  | none absent => exact .none ((same.faces _).trans absent)
  | some isVar named groups =>
      exact .some isVar (((same.append _).faces _).trans named)
        (moves_series (fun first => moves_variable_group first bound) _ _ _ _ groups
          (Nat.lt_succ_of_lt (Nat.lt_of_succ_lt short)) same)

theorem moves_optional_params (bound : Nat) : Moves OptionalParams OptionalParams bound := by
  rintro script rest other params (⟨opening, back, rfl, opens, read⟩ | ⟨absent, rfl, rfl⟩) short same
  · refine .inl ⟨opening, back, rfl, opens, ?_⟩
    cases read with
    | empty closes => exact .empty closes
    | @listed closing _ _ _ _ _ head tail closes =>
        simp only [Script.tokens_read, Script.tokens_append, List.length_cons, List.length_append]
          at short
        have behind := SameHead.cons closing rest other
        exact .listed (moves_param_group bound _ _ _ _ head (by omega) (behind.append _))
          (moves_series (fun _ => moves_param_group bound) _ _ _ _ tail (by omega) behind) closes
  · exact .inr ⟨(same.faces _).trans absent, rfl, rfl⟩

theorem moves_procedure_header (bound : Nat) : Moves ProcedureHeader ProcedureHeader bound := by
  rintro _ rest other _ ⟨isName, given, closes⟩ short same
  simp only [Script.tokens_read, Script.tokens_append, List.length_cons, List.length_append]
    at short
  exact .intro isName
    (moves_optional_params bound _ _ _ _ given (by omega) (.cons _ _ _)) closes

theorem moves_procedure_end (bound : Nat) : Moves ProcedureEnd ProcedureEnd bound := by
  intro script rest other value read short same
  cases read with
  | closed closes => exact .closed closes
  | @unclosed next rest notSemicolon =>
      cases other with
      | nil => cases same
      | cons first others =>
          cases same
          exact .unclosed notSemicolon

theorem moves_body_of {closing : Phrase Unit} (each : Moves closing closing m) (n : Nat) :
    Moves (BodyOf (Body unbroken n) closing) (BodyOf (Body broken m) closing) m := by
  rintro _ rest other _ ⟨opens, inner, ends, closes⟩ short same
  simp only [Script.tokens_read, Script.tokens_append, List.length_cons, List.length_append]
    at short
  exact .intro opens (moves_body n m _ _ _ _ inner (by omega) (.cons _ _ _)) ends
    (each _ _ _ _ closes (by omega) same)

theorem moves_procedure {nested nested' : Phrase (List Program)} (each : Moves nested nested' m)
    (n : Nat) (keyword : Token) :
    Moves (ProcedureOf nested (Body unbroken n) keyword) (ProcedureOf nested' (Body broken m) keyword)
      m := by
  rintro _ rest other _ ⟨head, declared, defined, done⟩ short same
  simp only [Script.tokens_append, List.length_append] at short
  exact .intro
    (moves_procedure_header m _ _ _ _ head (by omega) (((same.append _).append _).append _))
    (moves_var_section m _ _ _ _ declared (by omega) ((same.append _).append _))
    (each _ _ _ _ defined (by omega) (same.append _))
    (moves_body_of (moves_procedure_end m) n _ _ _ _ done (by omega) same)

theorem moves_procedures (n m : Nat) : Moves (Procedures unbroken n) (Procedures broken m) m := by
  induction n generalizing m with
  | zero =>
      intro script rest other value impossible
      exact impossible.elim
  | succ n induction =>
      intro script rest other value read short same
      obtain ⟨m, rfl⟩ := bound_succ short
      exact moves_series (moves_procedure (induction m) n) _ _ _ _ read short same

/-- A program ends with its point and sees nothing behind it. -/
theorem program_before_anything {script : Script} {rest : List Token} {value : Program}
    (read : WholeProgram unbroken n script rest value) (short : script.tokens.length < m)
    (other : List Token) : WholeProgram broken m script other value := by
  obtain ⟨isProgram, isName, closes, declared, defined, done⟩ := read
  obtain ⟨opens, inner, ends, closed⟩ := done
  simp only [Script.tokens_read, Script.tokens_append, List.length_cons, List.length_append]
    at short
  exact .intro isProgram isName closes
    (moves_var_section m _ _ _ _ declared (by omega) (SameHead.append (.cons _ _ _) _))
    (moves_procedures n m _ _ _ _ defined (by omega) (.cons _ _ _))
    (.intro opens (moves_body n m _ _ _ _ inner (by omega) (.cons _ _ _)) ends closed)

end TinyPascal.Phrase
