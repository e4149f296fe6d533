import TinyPascal.Parser.Program
import TinyPascal.Proofs.Shape.Commands

/-!
# What is made of a program

The rules of programs are never abandoned: a stand-in takes the place of what is missing. Stand-ins
have no text, so all tokens of the tree that have one were read, in the order of the tree.
-/

namespace TinyPascal

set_option autoImplicit false

namespace Variables

theorem shaped?_none : Shaped? none := by
  intro vars same
  cases same

theorem shaped?_some {vars : Variables} (each : ∀ declaration ∈ vars.declarations,
    declaration.Shaped) : Shaped? (some vars) := by
  intro made same
  rwa [← Option.some.inj same]

/-- The variables are shaped, and their tokens are among those read. -/
def Made (read : List Token) (_ : List Token) (vars : Option Variables) : Prop :=
  Shaped? vars ∧ (tokens? vars).Sublist read

theorem made_none {read rest : List Token} : Made read rest none :=
  ⟨shaped?_none, List.nil_sublist _⟩

end Variables

namespace Declaration

def MadeAll (read : List Token) (_ : List Token) (declarations : List Declaration) : Prop :=
  (∀ declaration ∈ declarations, declaration.Shaped) ∧
    (declarations.flatMap tokens).Sublist read

theorem made_all_nil {read rest : List Token} : MadeAll read rest [] :=
  ⟨List.forall_mem_nil _, List.nil_sublist _⟩

end Declaration

namespace Rule

variable {n : Nat} {words : List Token}

theorem makes_identifier : Makes words (identifier : Rule n Token) fun read _ token =>
    token.kind = .ident ∧ [token].Sublist read := by
  apply (makes_expect_any _ fun _ => makes_refuse_quoting _).imp
  intro read _ token found
  rcases found with ⟨rfl, isName⟩
  exact ⟨of_decide_eq_true isName, .refl _⟩

theorem makes_type_name : Makes words (typeName : Rule n Token) fun read _ token =>
    read = [token] ∧ token.kind.isTypeName = true :=
  makes_expect_any _ fun _ => makes_refuse_quoting _

theorem makes_group {first : Token} (isName : first.kind = .ident) :
    Makes words (group first : Rule n Declaration) fun read _ made =>
      made.Shaped ∧ made.tokens.Sublist (first :: read) := by
  apply makes_bind (makes_separated fun _ _ => makes_identifier)
  intro read _ others _ made
  apply makes_expect_bind
  intro colon _ _
  apply makes_map makes_type_name
  intro more _ type found
  rcases found with ⟨rfl, isType⟩
  constructor
  · exact ⟨isType, List.cons_ne_nil _ _, List.forall_mem_cons.mpr ⟨isName, made.1⟩⟩
  · have names := made.2
    rw [List.flatMap_singleton'] at names
    exact (names.append ((List.Sublist.refl [type]).cons colon)).cons_cons first

theorem makes_variable_group {first : Token} (isName : first.kind = .ident) :
    Makes words (variableGroup first : Rule n Declaration) fun read _ made =>
      made.Shaped ∧ made.tokens.Sublist (first :: read) := by
  apply makes_bind (makes_group isName)
  intro read _ declaration _ made
  apply makes_map (makes_expect _ _)
  intro more _ _ _
  exact ⟨made.1, made.2.trans ((List.sublist_append_left read more).cons_cons first)⟩

theorem makes_param_group : Makes words (paramGroup : Rule n Declaration) fun read _ made =>
    made.Shaped ∧ made.tokens.Sublist read := by
  apply makes_expect_any_bind fun _ => makes_refuse_quoting _
  intro first _ isName
  exact makes_group (of_decide_eq_true isName)

end Rule

namespace Step

open Declaration Rule

variable {n : Nat} {words : List Token}

theorem makes_variable_groups :
    Makes words (Row.items <$> variableGroups : Step n (List Declaration)) MadeAll := by
  rw [items_variable_groups]
  apply makes_still_bind (still_sees _)
  intro answer
  split
  · apply makes_map (makes_row (fun first _ opened =>
      makes_variable_group (of_decide_eq_true opened)) n (Nat.le_succ n) words)
    intro read _ groups made
    exact made
  · have refused : Rule.Makes words (refuseQuoting .identifier : Rule n Unit) fun _ _ _ => True :=
      makes_refuse_quoting _
    exact makes_map refused fun _ _ _ _ => made_all_nil

theorem makes_var_section : Makes words (varSection : Step n (Option Variables)) Variables.Made := by
  apply makes_take_bind
  · intro keyword rest _ _
    apply makes_bind makes_variable_groups
    intro read _ groups _ made
    apply makes_map (makes_recover _)
    intro more _ _ _
    apply And.intro (Variables.shaped?_some made.1)
    exact (made.2.trans (List.sublist_append_left _ _)).cons_cons keyword
  · intro _
    exact makes_pure Variables.made_none

theorem makes_param_groups :
    Makes words (Row.items <$> paramGroups : Step n (List Declaration)) MadeAll := by
  rw [items_param_groups]
  apply makes_bind makes_param_group
  intro read rest value _ reached
  cases value with
  | none => exact makes_pure made_all_nil
  | some first =>
      have made := reached first rfl
      apply makes_bind (makes_separated (fun _ _ => makes_param_group) n (Nat.le_succ n) rest)
      intro more _ others _ further
      have all : ∀ last rest, MadeAll (read ++ (more ++ last)) rest (first :: others.items) := by
        intro last _
        apply And.intro (List.forall_mem_cons.mpr ⟨made.1, further.1⟩)
        rw [List.flatMap_cons]
        exact made.2.append (further.2.trans (List.sublist_append_left _ _))
      dsimp only
      split
      · apply makes_map (makes_expect _ _)
        intro last rest _ _
        exact all last rest
      · exact makes_pure (all [] _)

theorem makes_params (opening : Token) :
    Makes words (params opening : Step n (Option Variables)) fun read =>
      Variables.Made (opening :: read) := by
  apply makes_take_bind
  · intro closing rest _ _
    apply makes_still_bind (still_warn _ _)
    intro _
    exact makes_pure Variables.made_none
  · intro _
    apply makes_map makes_param_groups
    intro read _ groups made
    exact ⟨Variables.shaped?_some made.1, made.2.cons_cons opening⟩

/-- The token that was expected, or a stand-in for it. -/
theorem makes_expect_or (kind : Kind) (problem : SyntacticProblem) (standIn : Kind) :
    Makes words (expectOr kind problem standIn : Step n Token) fun read _ token =>
      (token.kind = kind ∨ token.kind = standIn) ∧ token.present.Sublist read := by
  apply makes_still_bind still_current
  intro found
  apply makes_map (makes_expect kind problem)
  intro read _ value reached
  cases value with
  | none => exact ⟨.inr rfl, List.nil_sublist _⟩
  | some token =>
      rcases reached token rfl with ⟨rfl, expected⟩
      exact ⟨.inl expected, token.present_sublist⟩

theorem makes_unless_panicking {α : Type} {target : List Token → List Token → α → Prop}
    {otherwise : α} {step : Step n α} (skipped : target [] words otherwise)
    (taken : Makes words step target) : Makes words (unlessPanicking otherwise step) target := by
  apply makes_still_bind still_panicking
  intro answer
  split
  · exact makes_pure skipped
  · exact taken

theorem makes_asked (kind : Kind) (problem : SyntacticProblem) :
    Makes words (do let _ ← (Rule.expect kind problem).run : Step n Unit) fun _ _ _ => True :=
  makes_map (makes_expect kind problem) fun _ _ _ _ => trivial

theorem makes_body {closing : Step n Unit}
    (closes : ∀ words, Makes words closing fun _ _ _ => True) :
    Makes words (body closing) fun read _ made => made.1.kind = .beginKw ∧
      (∀ command ∈ made.2, command.Shaped) ∧
        (made.1.present ++ Command.tokensAll made.2).Sublist read := by
  apply makes_still_bind still_current
  intro found
  apply makes_bind (makes_expect .beginKw .bodyStart)
  intro read rest value _ reached
  cases value with
  | none => exact makes_pure ⟨rfl, List.forall_mem_nil _, List.nil_sublist _⟩
  | some opening =>
      rcases reached opening rfl with ⟨rfl, isBegin⟩
      apply makes_bind (makes_commands n rest)
      intro read _ commands _ made
      have done : ∀ more, (opening.present ++ Command.tokensAll commands).Sublist
          (opening :: (read ++ more)) := by
        intro more
        exact opening.present_sublist.append (made.2.trans (List.sublist_append_left _ _))
      apply makes_bind (makes_expect .endKw .bodyEnd)
      intro more _ closed _ _
      dsimp only
      split
      · apply makes_map (closes _)
        intro last _ _ _
        exact ⟨isBegin, made.1, done _⟩
      · exact makes_pure ⟨isBegin, made.1, done _⟩

theorem makes_procedure_end : Makes words (procedureEnd : Step n Unit) fun _ _ _ => True := by
  apply makes_bind (makes_take _)
  intro _ _ semicolon _ _
  split
  · exact makes_still_bind still_current fun _ =>
      makes_still_bind (still_warn _ _) fun _ => makes_pure trivial
  · exact makes_pure trivial

theorem makes_params_if : Makes words (do
    match ← take (· = .lparen) with
    | some opening => params opening
    | none => return none : Step n (Option Variables)) Variables.Made := by
  apply makes_take_bind
  · intro opening rest _ _
    exact makes_params opening
  · intro _
    exact makes_pure Variables.made_none

theorem makes_procedure_header :
    Makes words (procedureHeader : Step n (Token × Option Variables)) fun read _ made =>
      Variables.Shaped? made.2 ∧
        (made.1.present ++ Variables.tokens? made.2).Sublist read := by
  apply makes_bind (makes_expect_or _ _ _)
  intro read rest name _ named
  apply makes_still_bind (still_sees _)
  intro answer
  -- Whether the panic ends here makes no difference to the words.
  have calmed : ∀ next : Unit → Step n (Token × Option Variables),
      Makes rest (next ()) (fun more _ made => Variables.Shaped? made.2 ∧
        (made.1.present ++ Variables.tokens? made.2).Sublist (read ++ more)) →
      Makes rest (if answer = true then calm >>= next else next ()) fun more _ made =>
        Variables.Shaped? made.2 ∧
          (made.1.present ++ Variables.tokens? made.2).Sublist (read ++ more) := by
    intro next makes
    split
    · exact makes_still_bind still_calm fun _ => makes
    · exact makes
  apply calmed
  apply makes_bind (makes_unless_panicking Variables.made_none makes_params_if)
  intro more _ params _ made
  apply makes_bind (makes_unless_panicking trivial (makes_asked _ _))
  intro _ _ _ _ _
  apply makes_map (makes_recover _)
  intro _ _ _ _
  exact ⟨made.1, named.2.append (made.2.trans (List.sublist_append_left _ _))⟩

theorem makes_procedure {nested : Step n (List Program)}
    (inner : ∀ words, Makes words nested fun read _ made =>
      (∀ procedure ∈ made, procedure.ShapedInside) ∧
        (Program.tokensByAll Token.present made).Sublist read)
    {keyword : Token} (isProcedure : keyword.kind = .procedureKw) :
    Makes words (procedure nested keyword) fun read _ made =>
      made.ShapedInside ∧ (made.tokensBy Token.present).Sublist (keyword :: read) := by
  apply makes_bind makes_procedure_header
  intro first _ header _ headed
  apply makes_bind makes_var_section
  intro second _ locals _ declared
  apply makes_bind (inner _)
  intro third _ procedures _ defined
  apply makes_bind (makes_body fun _ => makes_procedure_end)
  intro fourth _ body _ done
  apply makes_map (makes_recover _)
  intro last _ _ _
  constructor
  · exact .intro isProcedure headed.1 declared.1 defined.1 done.1 done.2.1
  · rw [Program.tokensBy, ← List.append_assoc header.1.present]
    apply keyword.present_sublist.append
    apply headed.2.append
    apply declared.2.append
    apply defined.2.append
    exact done.2.2.trans (List.sublist_append_left _ _)

theorem makes_procedures (n : Nat) (words : List Token) :
    Makes words (procedures n) fun read _ made =>
      (∀ procedure ∈ made, procedure.ShapedInside) ∧
        (Program.tokensByAll Token.present made).Sublist read := by
  induction n generalizing words with
  | zero => exact makes_never
  | succ n induction =>
      have each : ∀ keyword words, keyword.kind = .procedureKw →
          Rule.Makes words (Rule.ofStep (procedure (procedures n) keyword)) fun read _ made =>
            made.ShapedInside ∧ (made.tokensBy Token.present).Sublist (keyword :: read) := by
        intro keyword words isProcedure
        exact makes_of_step (makes_procedure induction isProcedure)
      apply makes_map (makes_row (fun keyword words opened =>
        each keyword words (of_decide_eq_true opened)) (n + 1) (Nat.le_refl _) words)
      intro read _ row made
      rwa [Program.tokens_by_all_eq]

theorem makes_program_header :
    Makes words (programHeader : Step n (Token × Token)) fun read _ made =>
      made.1.kind = .programKw ∧ (made.1.present ++ made.2.present).Sublist read := by
  apply makes_bind (makes_expect_or _ _ _)
  intro read _ keyword _ opened
  apply makes_still_bind still_current
  intro found
  have named : ∀ words, Makes words (unlessPanicking (.missing found)
      (expectOr .ident .programName .unknown) : Step n Token) fun more _ name =>
        name.present.Sublist more := by
    intro words
    apply makes_unless_panicking (List.nil_sublist _)
    exact (makes_expect_or _ _ _).imp fun _ _ _ made => made.2
  apply makes_bind (named _)
  intro more _ name _ kept
  apply makes_bind (makes_unless_panicking trivial (makes_asked _ _))
  intro _ _ _ _ _
  apply makes_map (makes_recover _)
  intro _ _ _ _
  exact ⟨opened.1.elim id id,
    opened.2.append (kept.trans (List.sublist_append_left _ _))⟩

theorem makes_program (n : Nat) (words : List Token) :
    Makes words (program n) fun read _ made =>
      made.Shaped ∧ (made.tokensBy Token.present).Sublist read := by
  apply makes_bind makes_program_header
  intro first _ header _ headed
  apply makes_bind makes_var_section
  intro second _ locals _ declared
  apply makes_bind (makes_procedures n _)
  intro third _ procedures _ defined
  apply makes_map (makes_body fun _ => makes_asked _ _)
  intro fourth _ body done
  constructor
  · exact ⟨headed.1, rfl, declared.1, defined.1, done.1, done.2.1⟩
  · rw [Program.tokensBy, ← List.append_assoc header.1.present]
    apply headed.2.append
    exact declared.2.append (defined.2.append done.2.2)

end Step

end TinyPascal
