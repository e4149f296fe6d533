import Mathlib.Data.List.ReduceOption
import TinyPascal.Parser.Program
import TinyPascal.Proofs.Parallel.Steps

/-!
# Two readings of the same rule

Every rule of the grammar keeps what the moves of the parser keep, and reads
trees that look alike.
-/

namespace TinyPascal

set_option autoImplicit false

def Rule.Alike (same : ParseState → ParseState → Prop) {n n' : Nat} {α β : Type} (look : α → β)
    (rule : Rule n α) (other : Rule n' α) : Prop :=
  Step.Alike same (Option.map look) rule.run other.run

namespace Rule

variable {view : View} {same : ParseState → ParseState → Prop} {n n' : Nat} {α β γ δ : Type}

theorem alike_pure {look : α → γ} {value other : α} (alike : look value = look other) :
    Alike same look (pure value : Rule n α) (pure other : Rule n' α) :=
  Step.alike_pure (congrArg some alike)

theorem alike_failure {look : α → γ} :
    Alike same look (failure : Rule n α) (failure : Rule n' α) :=
  Step.alike_pure rfl

theorem alike_bind {look : α → γ} {look' : β → δ} {rule : Rule n α} {other : Rule n' α}
    {next : α → Rule n β} {next' : α → Rule n' β} (head : Alike same look rule other)
    (tail : ∀ value value', look value = look value' → Alike same look' (next value) (next' value')) :
    Alike same look' (rule >>= next) (other >>= next') := by
  have tails : ∀ value value' : Option α, value.map look = value'.map look →
      Step.Alike same (Option.map look')
        (match value with
          | some value => (next value).run
          | none => pure none : Step n (Option β))
        (match value' with
          | some value => (next' value).run
          | none => pure none : Step n' (Option β)) := by
    intro value value' values
    rcases value with _ | value <;> rcases value' with _ | value'
    · exact Step.alike_pure rfl
    · cases values
    · cases values
    · exact tail value value' (Option.some.inj values)
  exact Step.alike_bind head tails

theorem alike_map {look : α → γ} {look' : β → δ} {rule : Rule n α} {other : Rule n' α} {f f' : α → β}
    (head : Alike same look rule other)
    (alike : ∀ value value', look value = look value' → look' (f value) = look' (f' value')) :
    Alike same look' (rule >>= fun value => pure (f value)) (other >>= fun value => pure (f' value)) :=
  alike_bind head fun value value' values => alike_pure (alike value value' values)

theorem alike_of_step {look : α → γ} {step : Step n α} {other : Step n' α}
    (alike : Step.Alike same look step other) :
    Alike same look (ofStep step) (ofStep other) :=
  Step.alike_bind alike fun _ _ values => Step.alike_pure (congrArg some values)

theorem alike_never {look : α → γ} {other : Rule n' α} :
    Alike same look (never : Rule 0 α) other := Step.alike_never

theorem alike_zero {look : α → γ} {rule : Rule n α} {other : Rule 0 α} :
    Alike same look rule other := Step.alike_zero

variable (parallel : Parallel view same)

include parallel

theorem alike_refuse {look : α → γ} (problem : SyntacticProblem) :
    Alike same look (refuse problem : Rule n α) (refuse problem : Rule n' α) :=
  alike_bind (alike_of_step (Step.alike_refuse parallel problem)) fun _ _ _ => alike_failure

theorem alike_refuse_quoting {look : α → γ} (problem : String → SyntacticProblem) :
    Alike same look (refuseQuoting problem : Rule n α)
      (refuseQuoting problem : Rule n' α) := by
  apply alike_bind (alike_of_step (Step.alike_current parallel))
  intro token token' alike
  rw [view.lexeme_eq alike]
  exact alike_refuse parallel _

theorem alike_take_bind {look : α → γ} (kinds : Kind → Bool) {next : Option Token → Rule n α}
    {next' : Option Token → Rule n' α}
    (found : ∀ token token', view.look token = view.look token' →
      Alike same look (next (some token)) (next' (some token')))
    (missing : Alike same look (next none) (next' none)) :
    Alike same look (ofStep (Step.take kinds) >>= next) (ofStep (Step.take kinds) >>= next') :=
  Step.alike_take_bind parallel kinds found missing

theorem alike_expect_any (kinds : Kind → Bool) {otherwise : Rule n Token}
    {otherwise' : Rule n' Token} (missing : Alike same view.look otherwise otherwise') :
    Alike same view.look (expectAny kinds otherwise) (expectAny kinds otherwise') := by
  exact alike_take_bind parallel kinds (fun _ _ tokens => alike_pure tokens) missing

theorem alike_expect (kind : Kind) (problem : SyntacticProblem) :
    Alike same view.look (expect kind problem : Rule n Token)
      (expect kind problem : Rule n' Token) :=
  alike_expect_any parallel _ (alike_refuse parallel problem)

theorem alike_consuming {look : α → γ} (kinds : Kind → Bool) {behind : Token → Rule n α}
    {behind' : Token → Rule n' α} {otherwise : Rule (n + 1) α} {otherwise' : Rule (n' + 1) α}
    (found : ∀ token token', view.look token = view.look token' →
      Alike same look (behind token) (behind' token'))
    (missing : Alike same look otherwise otherwise') :
    Alike same look (consuming kinds behind otherwise) (consuming kinds behind' otherwise') :=
  Step.alike_consuming parallel kinds found missing

theorem alike_row {look : α → γ} (kinds : Kind → Bool) {item : Token → Rule n α}
    {item' : Token → Rule n' α}
    (each : ∀ token token', view.look token = view.look token' →
      Alike same look (item token) (item' token')) :
    Alike same (List.map look) (row kinds item) (row kinds item') := by
  refine alike_bind (alike_of_step
    (Step.alike_row parallel kinds each n n' (Nat.le_succ n) (Nat.le_succ n'))) ?_
  intro row row' rows
  simp only [Step.lookRow, Prod.mk.injEq] at rows
  obtain ⟨items, complete⟩ := rows
  rw [complete]
  split
  · exact alike_pure items
  · exact alike_failure

section Expressions

theorem alike_chain (kinds : Kind → Bool) {operand : Rule n Expr} {operand' : Rule n' Expr}
    (each : Alike same (Expr.seen view) operand operand') {first first' : Expr}
    (alike : first.seen view = first'.seen view) :
    Alike same (Expr.seen view) (chain kinds operand first) (chain kinds operand' first') := by
  -- The view of a chain is the chain of what the view shows of its links.
  have seen : ∀ (links : List (Token × Expr)) (left : Expr),
      (links.foldl (fun left link => .binary link.1 left link.2 none) left).seen view =
        (links.map (Prod.map view.look (Expr.seen view))).foldl
          (fun left link => .binary link.1 left link.2 none) (left.seen view) := by
    intro links
    induction links with
    | nil => exact fun left => rfl
    | cons link links induction => exact fun left => induction _
  have link : ∀ op op' : Token, view.look op = view.look op' →
      Alike same (Prod.map view.look (Expr.seen view))
        (do return (op, ← operand) : Rule n (Token × Expr))
        (do return (op', ← operand') : Rule n' (Token × Expr)) := by
    intro op op' ops
    exact alike_map each fun right right' rights => Prod.ext ops rights
  apply alike_map (alike_row parallel kinds link)
  intro links links' same
  have left := seen links first
  have right := seen links' first'
  rw [same, alike] at left
  exact left.trans right.symm

theorem alike_term {factor : Rule n Expr} {factor' : Rule n' Expr}
    (each : Alike same (Expr.seen view) factor factor') :
    Alike same (Expr.seen view) (term factor) (term factor') :=
  alike_bind each fun _ _ firsts => alike_chain parallel _ each firsts

theorem alike_simple_expr {factor : Rule n Expr} {factor' : Rule n' Expr}
    (each : Alike same (Expr.seen view) factor factor') :
    Alike same (Expr.seen view) (simpleExpr factor) (simpleExpr factor') := by
  have terms := alike_term parallel each
  rw [simpleExpr, simpleExpr, trying_eq, trying_eq]
  apply alike_bind (alike_of_step (Step.alike_take parallel _))
  intro sign sign' signs
  apply alike_bind terms
  intro first first' firsts
  apply alike_chain parallel _ terms
  rcases sign with _ | sign <;> rcases sign' with _ | sign'
  · exact firsts
  · cases signs
  · cases signs
  · simp only [Expr.seen, firsts, Option.some.inj signs]

theorem alike_expr {factor : Rule n Expr} {factor' : Rule n' Expr}
    (each : Alike same (Expr.seen view) factor factor') :
    Alike same (Expr.seen view) (expr factor) (expr factor') := by
  have simples := alike_simple_expr parallel each
  apply alike_bind simples
  intro left left' lefts
  refine alike_take_bind parallel _ (fun op op' ops => alike_map simples ?_) (alike_pure lefts)
  intro right right' rights
  simp only [Expr.seen, lefts, rights, ops]

theorem alike_comma_list {look : α → γ} {item : Rule n α} {item' : Rule n' α}
    (each : Alike same look item item') :
    Alike same (List.map look) (commaList item) (commaList item') := by
  apply alike_bind each
  intro first first' firsts
  apply alike_map (alike_row parallel _ fun _ _ _ => each)
  intro others others' same
  rw [List.map_cons, List.map_cons, firsts, same]

theorem alike_arguments {expr : Rule n Expr} {expr' : Rule n' Expr}
    (each : Alike same (Expr.seen view) expr expr') :
    Alike same (Option.map (List.map (Expr.seen view))) (arguments expr) (arguments expr') := by
  have close : ∀ args args' : List Expr,
      args.map (Expr.seen view) = args'.map (Expr.seen view) →
      Alike same (Option.map (List.map (Expr.seen view)))
        (do
          let _ ← expect .rparen .argumentsEnd
          return some args : Rule n (Option (List Expr)))
        (do
          let _ ← expect .rparen .argumentsEnd
          return some args' : Rule n' (Option (List Expr))) := by
    intro args args' same
    exact alike_map (alike_expect parallel _ _) fun _ _ _ => congrArg some same
  rw [arguments, arguments, trying_eq, trying_eq]
  refine alike_take_bind parallel _ (fun opening opening' openings => ?_) (alike_pure rfl)
  apply alike_bind (alike_of_step (Step.alike_sees parallel _))
  rintro faced _ rfl
  cases faced with
  | true =>
      apply alike_bind (alike_of_step (Step.alike_warn parallel .emptyArguments openings))
      intro _ _ _
      exact close [] [] rfl
  | false => exact alike_bind (alike_comma_list parallel each) close

theorem alike_named {expr : Rule n Expr} {expr' : Rule n' Expr}
    (each : Alike same (Expr.seen view) expr expr') {token token' : Token}
    (tokens : view.look token = view.look token') :
    Alike same (Expr.seen view)
      (do
        match ← arguments expr with
        | none => return .name token none
        | some args => return .call token args none : Rule n Expr)
      (do
        match ← arguments expr' with
        | none => return .name token' none
        | some args => return .call token' args none : Rule n' Expr) := by
  apply alike_bind (alike_arguments parallel each)
  intro args args' same
  rcases args with _ | args <;> rcases args' with _ | args'
  · exact alike_pure (by simp only [Expr.seen, tokens])
  · cases same
  · cases same
  · apply alike_pure
    simp only [Expr.seen, Expr.all_seen_eq, tokens, Option.some.inj same]

theorem alike_factor_of {inner : Rule n Expr} {inner' : Rule n' Expr}
    (each : Alike same (Expr.seen view) inner inner') :
    Alike same (Expr.seen view) (factorOf inner) (factorOf inner') := by
  have enclosed := alike_expr parallel each
  refine alike_consuming parallel _ (fun token token' tokens => alike_pure ?_) ?_
  · simp only [Expr.seen, tokens]
  refine alike_consuming parallel _ (fun op op' ops => alike_map each ?_) ?_
  · intro operand operand' operands
    simp only [Expr.seen, ops, operands]
  refine alike_consuming parallel _ (fun opening opening' openings => ?_) ?_
  · apply alike_bind enclosed
    intro value value' values
    apply alike_map (alike_expect parallel _ _)
    intro _ _ _
    simp only [Expr.seen, openings, values]
  exact alike_consuming parallel _ (fun token token' tokens => alike_named parallel enclosed tokens)
    (alike_refuse_quoting parallel _)

theorem alike_factor (n n' : Nat) : Alike same (Expr.seen view) (factor n) (factor n') := by
  induction n generalizing n' with
  | zero => exact alike_never
  | succ n induction =>
      cases n' with
      | zero => exact alike_zero
      | succ n' => exact alike_factor_of parallel (induction n')

theorem alike_expression (n n' : Nat) :
    Alike same (Expr.seen view) (expression n) (expression n') :=
  alike_expr parallel (alike_factor parallel n n')

end Expressions

section Commands

theorem alike_command_or_none {command : Rule n Command} {command' : Rule n' Command}
    (each : Alike same (Command.seen view) command command') :
    Step.Alike same (Option.map (Command.seen view)) (commandOrNone command)
      (commandOrNone command') := by
  apply Step.alike_bind each
  intro read read' reads
  exact Step.alike_bind (Step.alike_recover parallel _) fun _ _ _ => Step.alike_pure reads

theorem alike_command_behind {command : Rule n Command} {command' : Rule n' Command}
    (each : Alike same (Command.seen view) command command') {semicolon semicolon' : Token}
    (semicolons : view.look semicolon = view.look semicolon') :
    Step.Alike same (Option.map (Command.seen view)) (commandBehind command semicolon)
      (commandBehind command' semicolon') := by
  apply Step.alike_bind (Step.alike_sees parallel _)
  rintro faced _ rfl
  cases faced with
  | true =>
      exact Step.alike_bind (Step.alike_warn parallel _ semicolons) fun _ _ _ => Step.alike_pure rfl
  | false => exact alike_command_or_none parallel each

theorem alike_command_list {command : Rule n Command} {command' : Rule n' Command}
    (each : Alike same (Command.seen view) command command') :
    Step.Alike same (List.map (Command.seen view)) (commandList command) (commandList command') := by
  apply Step.alike_bind (Step.alike_sees parallel _)
  rintro faced _ rfl
  cases faced with
  | true => exact Step.alike_pure rfl
  | false =>
      apply Step.alike_bind (alike_command_or_none parallel each)
      intro first first' firsts
      have behind : ∀ semicolon semicolon' : Token, view.look semicolon = view.look semicolon' →
          Alike same (Option.map (Command.seen view)) (ofStep (commandBehind command semicolon))
            (ofStep (commandBehind command' semicolon')) := by
        intro semicolon semicolon' semicolons
        exact alike_of_step (alike_command_behind parallel each semicolons)
      refine Step.alike_bind
        (Step.alike_row parallel _ behind n n' (Nat.le_succ n) (Nat.le_succ n')) ?_
      intro others others' rows
      apply Step.alike_pure
      simp only [Step.lookRow, Prod.mk.injEq] at rows
      rw [← List.reduceOption_map, ← List.reduceOption_map, List.map_cons, List.map_cons, firsts, rows.1]

theorem alike_assignment_or_call {expr : Rule n Expr} {expr' : Rule n' Expr}
    (each : Alike same (Expr.seen view) expr expr') {name name' : Token}
    (names : view.look name = view.look name') :
    Alike same (Command.seen view) (assignmentOrCall expr name) (assignmentOrCall expr' name') := by
  refine alike_take_bind parallel _ (fun op op' ops => alike_map each ?_)
    (alike_map (alike_arguments parallel each) ?_)
  · intro value value' values
    simp only [Command.seen, Assignment.seen, names, values, ops]
  · intro args args' same
    have given : (args.getD []).map (Expr.seen view) = (args'.getD []).map (Expr.seen view) := by
      rcases args with _ | args <;> rcases args' with _ | args'
      · rfl
      · cases same
      · cases same
      · exact Option.some.inj same
    simp only [Command.seen, names, Option.map_some, given]

theorem alike_for_loop {expr : Rule n Expr} {expr' : Rule n' Expr} {command : Rule n Command}
    {command' : Rule n' Command} (each : Alike same (Expr.seen view) expr expr')
    (inner : Alike same (Command.seen view) command command') {keyword keyword' : Token}
    (keywords : view.look keyword = view.look keyword') :
    Alike same (Command.seen view) (forLoop expr command keyword)
      (forLoop expr' command' keyword') := by
  apply alike_bind (alike_expect parallel _ _)
  intro target target' targets
  apply alike_bind (alike_expect parallel _ _)
  intro op op' ops
  apply alike_bind each
  intro start start' starts
  apply alike_bind (alike_expect_any parallel _ (alike_refuse parallel _))
  intro direction direction' directions
  apply alike_bind each
  intro bound bound' bounds
  apply alike_bind (alike_expect parallel _ _)
  intro _ _ _
  apply alike_map inner
  intro body body' bodies
  simp only [Command.seen, Assignment.seen, keywords, targets, ops, starts, bounds, bodies,
    view.kind_eq directions]

theorem alike_command_of {expr : Rule n Expr} {expr' : Rule n' Expr} {inner : Rule n Command}
    {inner' : Rule n' Command} (exprs : Alike same (Expr.seen view) expr expr')
    (each : Alike same (Command.seen view) inner inner') :
    Alike same (Command.seen view) (commandOf expr inner) (commandOf expr' inner') := by
  rw [commandOf, commandOf, trying_eq, trying_eq]
  refine alike_consuming parallel _
    (fun name name' names => alike_assignment_or_call parallel exprs names) ?_
  refine alike_consuming parallel _ (fun opening opening' openings => ?_) ?_
  · rw [block, block, trying_eq, trying_eq]
    apply alike_bind (alike_of_step (alike_command_list parallel each))
    intro commands commands' lists
    apply alike_map (alike_expect parallel _ _)
    intro _ _ _
    simp only [Command.seen, Command.all_seen_eq, openings, lists]
  refine alike_consuming parallel _ (fun keyword keyword' keywords => ?_) ?_
  · apply alike_bind exprs
    intro condition condition' conditions
    apply alike_bind (alike_expect parallel _ _)
    intro _ _ _
    apply alike_bind each
    intro branch branch' branches
    refine alike_take_bind parallel _ (fun _ _ _ => alike_map each ?_) (alike_pure ?_)
    · intro otherwise otherwise' others
      simp only [Command.seen, keywords, conditions, branches, others]
    · simp only [Command.seen, keywords, conditions, branches]
  refine alike_consuming parallel _ (fun keyword keyword' keywords => ?_) ?_
  · apply alike_bind exprs
    intro condition condition' conditions
    apply alike_bind (alike_expect parallel _ _)
    intro _ _ _
    apply alike_map each
    intro body body' bodies
    simp only [Command.seen, keywords, conditions, bodies]
  exact alike_consuming parallel _
    (fun keyword keyword' keywords => alike_for_loop parallel exprs each keywords)
    (alike_refuse_quoting parallel _)

theorem alike_command (n n' : Nat) : Alike same (Command.seen view) (command n) (command n') := by
  induction n generalizing n' with
  | zero => exact alike_never
  | succ n induction =>
      cases n' with
      | zero => exact alike_zero
      | succ n' => exact alike_command_of parallel (alike_expression parallel n n') (induction n')

end Commands

section Declarations

theorem alike_identifier :
    Alike same view.look (identifier : Rule n Token) (identifier : Rule n' Token) :=
  alike_expect_any parallel _ (alike_refuse_quoting parallel _)

theorem alike_type_name :
    Alike same view.look (typeName : Rule n Token) (typeName : Rule n' Token) :=
  alike_expect_any parallel _ (alike_refuse_quoting parallel _)

theorem alike_group {first first' : Token} (firsts : view.look first = view.look first') :
    Alike same (Declaration.seen view) (group first : Rule n Declaration)
      (group first' : Rule n' Declaration) := by
  apply alike_bind (alike_row parallel _ fun _ _ _ => alike_identifier parallel)
  intro others others' rows
  apply alike_bind (alike_expect parallel _ _)
  intro _ _ _
  apply alike_map (alike_type_name parallel)
  intro type type' types
  simp only [Declaration.seen, List.map_cons, types, firsts, rows]

theorem alike_variable_group {first first' : Token} (firsts : view.look first = view.look first') :
    Alike same (Declaration.seen view) (variableGroup first : Rule n Declaration)
      (variableGroup first' : Rule n' Declaration) := by
  apply alike_bind (alike_group parallel firsts)
  intro declaration declaration' declarations
  exact alike_map (alike_expect parallel _ _) fun _ _ _ => declarations

theorem alike_param_group :
    Alike same (Declaration.seen view) (paramGroup : Rule n Declaration)
      (paramGroup : Rule n' Declaration) :=
  alike_bind (alike_identifier parallel) fun _ _ firsts => alike_group parallel firsts

end Declarations

end Rule

namespace Step

variable {view : View} {same : ParseState → ParseState → Prop} {n n' : Nat} {α γ : Type}
variable (parallel : Parallel view same)

include parallel

theorem alike_variable_groups :
    Alike same (List.map (Declaration.seen view))
      (Row.items <$> variableGroups : Step n (List Declaration))
      (Row.items <$> variableGroups : Step n' (List Declaration)) := by
  rw [items_variable_groups, items_variable_groups]
  apply alike_bind (alike_sees parallel _)
  rintro faced _ rfl
  cases faced with
  | true =>
      refine alike_bind (alike_row parallel _
        (fun _ _ firsts => Rule.alike_variable_group parallel firsts) n n' (Nat.le_succ n)
        (Nat.le_succ n')) ?_
      intro groups groups' rows
      exact alike_pure (Prod.ext_iff.mp rows).1
  | false =>
      have refused : Rule.Alike same id (Rule.refuseQuoting .identifier : Rule n Unit)
          (Rule.refuseQuoting .identifier : Rule n' Unit) := Rule.alike_refuse_quoting parallel _
      exact alike_bind refused fun _ _ _ => alike_pure rfl

theorem alike_var_section :
    Alike same (Option.map (Variables.seen view)) (varSection : Step n (Option Variables))
      (varSection : Step n' (Option Variables)) := by
  refine alike_take_bind parallel _ (fun keyword keyword' keywords => ?_) (alike_pure rfl)
  apply alike_bind (alike_variable_groups parallel)
  intro groups groups' rows
  apply alike_bind (alike_recover parallel _)
  intro _ _ _
  apply alike_pure
  simp only [Option.map_some, Variables.seen, rows, keywords]

theorem alike_param_groups :
    Alike same (List.map (Declaration.seen view))
      (Row.items <$> paramGroups : Step n (List Declaration))
      (Row.items <$> paramGroups : Step n' (List Declaration)) := by
  rw [items_param_groups, items_param_groups]
  apply alike_bind (Rule.alike_param_group parallel)
  intro first first' firsts
  rcases first with _ | first <;> rcases first' with _ | first'
  · exact alike_pure rfl
  · cases firsts
  · cases firsts
  · refine alike_bind (alike_row parallel _ (fun _ _ _ => Rule.alike_param_group parallel) n n'
      (Nat.le_succ n) (Nat.le_succ n')) ?_
    intro others others' rows
    simp only [lookRow, Prod.mk.injEq] at rows
    have groups : (first :: others.items).map (Declaration.seen view) =
        (first' :: others'.items).map (Declaration.seen view) := by
      rw [List.map_cons, List.map_cons, rows.1, Option.some.inj firsts]
    rw [rows.2]
    split
    · exact alike_bind (Rule.alike_expect parallel _ _) fun _ _ _ => alike_pure groups
    · exact alike_pure groups

theorem alike_params {opening opening' : Token} (openings : view.look opening = view.look opening') :
    Alike same (Option.map (Variables.seen view)) (params opening : Step n (Option Variables))
      (params opening' : Step n' (Option Variables)) := by
  refine alike_take_bind parallel _ (fun closing closing' closings => ?_)
    (alike_bind (alike_param_groups parallel) ?_)
  · exact alike_bind (alike_warn parallel _ closings) fun _ _ _ => alike_pure rfl
  · intro groups groups' rows
    apply alike_pure
    simp only [Option.map_some, Variables.seen, rows, openings]

theorem alike_expect_or (kind : Kind) (problem : SyntacticProblem) (standIn : Kind) :
    Alike same view.look (expectOr kind problem standIn : Step n Token)
      (expectOr kind problem standIn : Step n' Token) := by
  apply alike_bind (alike_current parallel)
  intro found found' founds
  apply alike_bind (Rule.alike_expect parallel kind problem)
  intro token token' tokens
  apply alike_pure
  rcases token with _ | token <;> rcases token' with _ | token'
  · exact view.standIn standIn found found' founds
  · cases tokens
  · cases tokens
  · exact Option.some.inj tokens

theorem alike_unless_panicking {look : α → γ} {otherwise otherwise' : α} {step : Step n α}
    {step' : Step n' α} (values : look otherwise = look otherwise')
    (steps : Alike same look step step') :
    Alike same look (unlessPanicking otherwise step) (unlessPanicking otherwise' step') := by
  apply alike_bind (alike_panicking parallel)
  rintro broken _ rfl
  cases broken with
  | true => exact alike_pure values
  | false => exact steps

theorem alike_body {closing : Step n Unit} {closing' : Step n' Unit}
    (closes : Alike same id closing closing') :
    Alike same (Prod.map view.look (List.map (Command.seen view))) (body closing)
      (body closing') := by
  apply alike_bind (alike_current parallel)
  intro found found' founds
  apply alike_bind (Rule.alike_expect parallel _ _)
  intro opening opening' openings
  rcases opening with _ | opening <;> rcases opening' with _ | opening'
  · apply alike_pure
    simp only [Prod.map_apply, view.standIn .beginKw found found' founds]
  · cases openings
  · cases openings
  · apply alike_bind (Rule.alike_command_list parallel (Rule.alike_command parallel n n'))
    intro commands commands' lists
    have read : Prod.map view.look (List.map (Command.seen view)) (opening, commands) =
        Prod.map view.look (List.map (Command.seen view)) (opening', commands') :=
      Prod.ext (Option.some.inj openings) lists
    apply alike_bind (Rule.alike_expect parallel _ _)
    intro endWord endWord' endWords
    rcases endWord with _ | endWord <;> rcases endWord' with _ | endWord'
    · exact alike_pure read
    · cases endWords
    · cases endWords
    · exact alike_bind closes fun _ _ _ => alike_pure read

theorem alike_procedure_end : Alike same id (procedureEnd : Step n Unit)
    (procedureEnd : Step n' Unit) := by
  exact alike_take_bind parallel _ (fun _ _ _ => alike_pure rfl)
    (alike_bind (alike_current parallel) fun _ _ tokens => alike_warn parallel _ tokens)

theorem alike_expect_only (kind : Kind) (problem : SyntacticProblem) :
    Alike same id
      (do let _ ← (Rule.expect kind problem).run : Step n Unit)
      (do let _ ← (Rule.expect kind problem).run : Step n' Unit) :=
  alike_bind (Rule.alike_expect parallel kind problem) fun _ _ _ => alike_pure rfl

theorem alike_procedure_header :
    Alike same (Prod.map view.look (Option.map (Variables.seen view)))
      (procedureHeader : Step n (Token × Option Variables))
      (procedureHeader : Step n' (Token × Option Variables)) := by
  -- The parameters, and what stands behind them.
  have behind : ∀ {given : Step n (Option Variables)} {given' : Step n' (Option Variables)}
      {name name' : Token}, view.look name = view.look name' →
      Alike same (Option.map (Variables.seen view)) given given' →
      Alike same (Prod.map view.look (Option.map (Variables.seen view)))
        (do
          let params ← unlessPanicking none given
          unlessPanicking () do
            let _ ← (Rule.expect .semicolon .procedureHeaderEnd).run
          recover Kind.endsHeader
          return (name, params) : Step n (Token × Option Variables))
        (do
          let params ← unlessPanicking none given'
          unlessPanicking () do
            let _ ← (Rule.expect .semicolon .procedureHeaderEnd).run
          recover Kind.endsHeader
          return (name', params) : Step n' (Token × Option Variables)) := by
    intro given given' name name' names alike
    apply alike_bind (alike_unless_panicking parallel rfl alike)
    intro params params' same
    apply alike_bind (alike_unless_panicking parallel rfl (alike_expect_only parallel _ _))
    intro _ _ _
    exact alike_bind (alike_recover parallel _) fun _ _ _ => alike_pure (Prod.ext names same)
  apply alike_bind (alike_expect_or parallel _ _ _)
  intro name name' names
  apply alike_bind (alike_sees parallel _)
  rintro faced _ rfl
  cases faced with
  | true =>
      exact alike_bind (alike_calm parallel) fun _ _ _ => behind names
        (alike_take_bind parallel _ (fun _ _ openings => alike_params parallel openings)
          (alike_pure rfl))
  | false =>
      exact behind names (alike_take_bind parallel _
        (fun _ _ openings => alike_params parallel openings) (alike_pure rfl))

theorem alike_procedure {nested : Step n (List Program)} {nested' : Step n' (List Program)}
    (each : Alike same (List.map (Program.seen view)) nested nested') {keyword keyword' : Token}
    (keywords : view.look keyword = view.look keyword') :
    Alike same (Program.seen view) (procedure nested keyword) (procedure nested' keyword') := by
  apply alike_bind (alike_procedure_header parallel)
  rintro ⟨name, params⟩ ⟨name', params'⟩ headers
  apply alike_bind (alike_var_section parallel)
  intro locals locals' sections
  apply alike_bind each
  intro procedures procedures' lists
  apply alike_bind (alike_body parallel (alike_procedure_end parallel))
  rintro ⟨opening, commands⟩ ⟨opening', commands'⟩ bodies
  apply alike_bind (alike_recover parallel _)
  intro _ _ _
  apply alike_pure
  simp only [Prod.map_apply, Prod.mk.injEq] at headers bodies
  simp only [Program.seen, Program.all_seen_eq, keywords, headers, sections, lists, bodies]

theorem alike_procedure_row {nested : Step n (List Program)} {nested' : Step n' (List Program)}
    (each : Alike same (List.map (Program.seen view)) nested nested') :
    Alike same (List.map (Program.seen view)) (procedureRow nested) (procedureRow nested') := by
  have rows : ∀ keyword keyword' : Token, view.look keyword = view.look keyword' →
      Rule.Alike same (Program.seen view) (Rule.ofStep (procedure nested keyword))
        (Rule.ofStep (procedure nested' keyword')) := by
    intro keyword keyword' keywords
    exact Rule.alike_of_step (alike_procedure parallel each keywords)
  refine alike_bind (alike_row parallel _ rows (n + 1) (n' + 1) (Nat.le_refl _)
    (Nat.le_refl _)) ?_
  intro read read' lists
  exact alike_pure (Prod.ext_iff.mp lists).1

theorem alike_procedures (n n' : Nat) :
    Alike same (List.map (Program.seen view)) (procedures n) (procedures n') := by
  induction n generalizing n' with
  | zero => exact alike_never
  | succ n induction =>
      cases n' with
      | zero => exact alike_zero
      | succ n' => exact alike_procedure_row parallel (induction n')

theorem alike_program_header :
    Alike same (Prod.map view.look view.look) (programHeader : Step n (Token × Token))
      (programHeader : Step n' (Token × Token)) := by
  apply alike_bind (alike_expect_or parallel _ _ _)
  intro keyword keyword' keywords
  apply alike_bind (alike_current parallel)
  intro found found' founds
  refine alike_bind (alike_unless_panicking parallel (view.standIn .unknown found found' founds)
    (alike_expect_or parallel _ _ _)) ?_
  intro name name' names
  apply alike_bind (alike_unless_panicking parallel rfl (alike_expect_only parallel _ _))
  intro _ _ _
  exact alike_bind (alike_recover parallel _) fun _ _ _ => alike_pure (Prod.ext keywords names)

theorem alike_program (n n' : Nat) :
    Alike same (Program.seen view) (program n) (program n') := by
  apply alike_bind (alike_program_header parallel)
  rintro ⟨keyword, name⟩ ⟨keyword', name'⟩ headers
  apply alike_bind (alike_var_section parallel)
  intro locals locals' sections
  apply alike_bind (alike_procedures parallel n n')
  intro procedures procedures' lists
  apply alike_bind (alike_body parallel (alike_expect_only parallel _ _))
  rintro ⟨opening, commands⟩ ⟨opening', commands'⟩ bodies
  apply alike_pure
  simp only [Prod.map_apply, Prod.mk.injEq] at headers bodies
  simp only [Program.seen, Program.all_seen_eq, headers, sections, lists, bodies, Option.map_none]

end Step

end TinyPascal
