import TinyPascal.Parser.Program
import TinyPascal.Proofs.Discipline.Account

/-!
# Every rule is careful

Whatever discipline a parse is under, every rule of the grammar keeps it. A rule that may be
abandoned starts where no refused token is looked at, and is abandoned exactly when it has
recorded an error. The rules that recover hand a refused token on only to a rule that
consumes it: a list of commands to `end`, the variables to a procedure or to `begin`, a
header to what may follow it.

This is shown of a rule and of the account of it at once, so each of them is gone through only once.
-/

namespace TinyPascal.Discipline

set_option autoImplicit false

open Account

variable {d : Discipline} {n m : Nat} {α β : Type} {kinds : Kind → Bool}

/-- Tried where no refused token is looked at, the rule comes to a verdict. -/
def Governs (d : Discipline) (told : Told n α) (rule : Rule n α) : Prop :=
  Clears d.clear told.run rule.run d.verdict

section Combinators

theorem governs_pure (value : α) : d.Governs (pure value : Told n α) (pure value) :=
  clears_pure fun _ clear => clear

theorem run_bind {before : ParseState → Prop} {told : Told n α} {rule : Rule n α}
    {next : α → Told n β} {next' : α → Rule n β}
    (first : Clears before told.run rule.run d.verdict)
    (second : ∀ value, d.Governs (next value) (next' value)) :
    Clears before (told >>= next).run (rule >>= next').run d.verdict := by
  rw [OptionT.run_bind, OptionT.run_bind]
  apply clears_bind first
  intro value
  cases value with
  | none => exact clears_pure fun _ broken => broken
  | some value => exact second value

theorem governs_bind {told : Told n α} {rule : Rule n α} {next : α → Told n β}
    {next' : α → Rule n β} (first : d.Governs told rule)
    (second : ∀ value, d.Governs (next value) (next' value)) :
    d.Governs (told >>= next) (rule >>= next') :=
  run_bind first second

theorem clears_of_step {before : ParseState → Prop} {after : α → ParseState → Prop}
    {account : Account n α} {step : Step n α} (clears : Clears before account step after) :
    Clears before (Rule.ofStep account).run (Rule.ofStep step).run fun value s =>
      value.elim False fun value => after value s :=
  clears_bind clears fun _ => clears_pure fun _ reached => reached

theorem of_step_bind {before : ParseState → Prop} {middle : α → ParseState → Prop}
    {after : Option β → ParseState → Prop} {account : Account n α} {step : Step n α}
    {next : α → Told n β} {next' : α → Rule n β} (first : Clears before account step middle)
    (second : ∀ value, Clears (middle value) (next value).run (next' value).run after) :
    Clears before (Rule.ofStep account >>= next).run (Rule.ofStep step >>= next').run after := by
  rw [OptionT.run_bind, OptionT.run_bind]
  apply clears_bind (clears_of_step first)
  intro value
  cases value with
  | none => exact clears_pure fun _ impossible => impossible.elim
  | some value => exact second value

theorem governs_never : d.Governs (Rule.never : Told 0 α) Rule.never := clears_never

theorem none_iff_panicking {value : Option α} {s : ParseState} (reached : d.verdict value s) :
    value.isNone = true ↔ s.panicking = true := by
  cases value with
  | none => exact ⟨fun _ => d.panicking_of_broken reached, fun _ => rfl⟩
  | some value =>
      have quiet := d.calm_of_held reached
      simp [quiet]

theorem governs_trying (attempt : Attempt) {told : Told n α} {rule : Rule n α}
    (governs : d.Governs told rule) :
    d.Governs (Rule.trying attempt told) (Rule.trying attempt rule) :=
  clears_trying attempt governs (fun _ => d.calm_of_held) fun _ _ => none_iff_panicking

theorem refuse_abandons (problem : SyntacticProblem) :
    Clears d.clear (Rule.refuse problem : Told n α).run (Rule.refuse problem : Rule n α).run
      fun value s => value = none ∧ d.broken s :=
  of_step_bind (clears_refuse problem) fun _ => clears_pure fun _ broken => ⟨rfl, broken⟩

theorem refuse_quoting_abandons (problem : String → SyntacticProblem) :
    Clears d.clear (Rule.refuseQuoting problem : Told n α).run
      (Rule.refuseQuoting problem : Rule n α).run fun value s => value = none ∧ d.broken s := by
  apply of_step_bind clears_current
  intro token
  exact (refuse_abandons (problem token.lexeme)).under fun _ start => start.1

theorem verdict_of_abandoned (value : Option α) (s : ParseState)
    (reached : value = none ∧ d.broken s) : d.verdict value s := by
  rw [reached.1]
  exact reached.2

theorem governs_refuse (problem : SyntacticProblem) :
    d.Governs (Rule.refuse problem : Told n α) (Rule.refuse problem) :=
  (refuse_abandons problem).weaken (fun _ clear => clear) verdict_of_abandoned

theorem governs_refuse_quoting (problem : String → SyntacticProblem) :
    d.Governs (Rule.refuseQuoting problem : Told n α) (Rule.refuseQuoting problem) :=
  (refuse_quoting_abandons problem).weaken (fun _ clear => clear) verdict_of_abandoned

theorem Governs.behind {told : Told n α} {rule : Rule n α} (governs : d.Governs told rule)
    (token : Token) : Clears (d.behind token) told.run rule.run d.verdict :=
  Clears.under governs fun _ behind => d.passed behind

theorem Governs.missing {told : Told n α} {rule : Rule n α} (governs : d.Governs told rule)
    (taken : Kind → Bool) :
    Clears (d.held fun kind => false && !taken kind) told.run rule.run d.verdict :=
  Clears.under governs fun _ held => mono held fun _ none => none

theorem governs_take_bind (taken : Kind → Bool) {next : Option Token → Told n β}
    {next' : Option Token → Rule n β}
    (found : ∀ token, Clears (d.behind token) (next (some token)).run (next' (some token)).run
      d.verdict)
    (missing : d.Governs (next none) (next' none)) :
    d.Governs (Rule.ofStep (Parsing.take taken) >>= next)
      (Rule.ofStep (Parsing.take taken) >>= next') := by
  apply of_step_bind (clears_take taken)
  intro token
  cases token with
  | none => exact missing.missing taken
  | some token => exact found token

theorem governs_expect_any (taken : Kind → Bool) {otherwise : Told n Token}
    {otherwise' : Rule n Token} (governs : d.Governs otherwise otherwise') :
    d.Governs (Rule.expectAny taken otherwise) (Rule.expectAny taken otherwise') :=
  governs_take_bind taken (fun token => (governs_pure token).behind token) governs

/-- A token that may have been refused before is expected only where its kind is the one
expected: it is consumed, or it is of another kind and above suspicion. -/
theorem clears_expect (kind : Kind) (problem : SyntacticProblem) :
    Clears (d.held fun other => other = kind) (Rule.expect kind problem : Told n Token).run
      (Rule.expect kind problem : Rule n Token).run d.verdict := by
  apply of_step_bind (clears_take _)
  intro found
  cases found with
  | some token => exact (governs_pure token).behind token
  | none =>
      apply Clears.under (governs_refuse problem)
      intro s held
      apply mono held
      intro other both
      simp at both

theorem governs_expect (kind : Kind) (problem : SyntacticProblem) :
    d.Governs (Rule.expect kind problem : Told n Token) (Rule.expect kind problem) :=
  Clears.under (clears_expect kind problem) fun _ clear => held_of_clear clear

theorem governs_consuming (taken : Kind → Bool) {next : Token → Told n α}
    {next' : Token → Rule n α} {otherwise : Told (n + 1) α} {otherwise' : Rule (n + 1) α}
    (found : ∀ token, d.Governs (next token) (next' token))
    (missing : d.Governs otherwise otherwise') :
    d.Governs (Rule.consuming taken next otherwise) (Rule.consuming taken next' otherwise') :=
  clears_consuming taken (fun token => (found token).behind token) (missing.missing taken)

theorem governs_row (opens : Kind → Bool) {item : Token → Told n α} {item' : Token → Rule n α}
    (each : ∀ token, d.Governs (item token) (item' token)) :
    d.Governs (Rule.row opens item) (Rule.row opens item') := by
  apply of_step_bind (clears_row opens (fun token => (each token).behind token) n (Nat.le_succ n))
  intro read
  cases read.complete with
  | true => exact (governs_pure read.items).missing opens
  | false => exact clears_pure fun _ broken => broken

theorem clears_row_steps (opens : Kind → Bool) {item : Token → Account n α}
    {item' : Token → Step n α}
    (each : ∀ token, Clears (d.behind token) (item token) (item' token) fun _ => d.held kinds)
    (m : Nat) (fits : m ≤ n + 1) :
    Clears (d.held kinds) (Step.row opens (fun token => Rule.ofStep (item token)) m fits)
      (Step.row opens (fun token => Rule.ofStep (item' token)) m fits) fun _ =>
        d.held fun kind => kinds kind && !opens kind := by
  have rows := clears_row opens (fun token => clears_of_step (each token)) m fits
  refine rows.weaken (fun _ held => held) ?_
  intro read s reached
  split at reached
  · exact reached
  · exact reached.elim

end Combinators

section Expressions

variable {factor inner : Told n Expr} {factor' inner' : Rule n Expr}

theorem governs_chain (ops : Kind → Bool) {operand : Told n Expr} {operand' : Rule n Expr}
    (each : d.Governs operand operand') (first : Expr) :
    d.Governs (Rule.chain ops operand first) (Rule.chain ops operand' first) :=
  governs_bind (governs_row ops fun op => governs_bind each fun right => governs_pure (op, right))
    fun _ => governs_pure _

theorem governs_term (each : d.Governs factor factor') :
    d.Governs (Rule.term factor) (Rule.term factor') :=
  governs_trying .term (governs_bind each fun first => governs_chain _ each first)

theorem governs_simple_expr (each : d.Governs factor factor') :
    d.Governs (Rule.simpleExpr factor) (Rule.simpleExpr factor') := by
  have terms := governs_term each
  have signed : ∀ sign : Expr → Expr, d.Governs
      (do
        let first ← Rule.term factor
        Rule.chain Kind.isAdditive (Rule.term factor) (sign first))
      (do
        let first ← Rule.term factor'
        Rule.chain Kind.isAdditive (Rule.term factor') (sign first)) := by
    intro sign
    exact governs_bind terms fun first => governs_chain _ terms (sign first)
  apply governs_trying .simpleExpr
  exact governs_take_bind _ (fun op => (signed (.unary op)).behind op) (signed id)

theorem governs_expr (each : d.Governs factor factor') :
    d.Governs (Rule.expr factor) (Rule.expr factor') := by
  have simples := governs_simple_expr each
  apply governs_trying .expr
  apply governs_bind simples
  intro left
  refine governs_take_bind _ (fun op => ?_) (governs_pure left)
  exact (governs_bind simples fun right => governs_pure (Expr.binary op left right none)).behind op

theorem governs_comma_list {item : Told n α} {item' : Rule n α} (each : d.Governs item item') :
    d.Governs (Rule.commaList item) (Rule.commaList item') :=
  governs_trying .commaList (governs_bind each fun first =>
    governs_bind (governs_row _ fun _ => each) fun others => governs_pure (first :: others))

theorem clears_warn_behind (token : Token) (problem : SyntacticProblem) :
    Clears (d.behind token) (Parsing.warn token problem : Account n Unit)
      (Parsing.warn token problem) fun _ => d.clear :=
  clears_warn fun _ => d.warnBehind problem

/-- Parentheses around nothing are warned about before anything behind them is read. -/
theorem governs_arguments {expr : Told n Expr} {expr' : Rule n Expr} (each : d.Governs expr expr') :
    d.Governs (Rule.arguments expr) (Rule.arguments expr') := by
  have close : ∀ args : List Expr, d.Governs
      (do
        let _ ← Rule.expect .rparen .argumentsEnd
        return some args : Told n (Option (List Expr)))
      (do
        let _ ← Rule.expect .rparen .argumentsEnd
        return some args) := by
    intro args
    exact governs_bind (governs_expect _ _) fun _ => governs_pure (some args)
  apply governs_trying .arguments
  refine governs_take_bind _ (fun opening => ?_) (governs_pure none)
  apply of_step_bind (clears_sees _)
  intro empty
  cases empty with
  | true =>
      have warned := of_step_bind (clears_warn_behind opening .emptyArguments) fun _ => close []
      exact warned.under fun _ start => start.1
  | false =>
      have given := (governs_bind (governs_comma_list each) close).behind opening
      exact given.under fun _ start => start.1

theorem governs_factor_of (each : d.Governs inner inner') :
    d.Governs (Rule.factorOf inner) (Rule.factorOf inner') := by
  have enclosed := governs_expr each
  apply governs_trying .factor
  apply governs_consuming _ fun token => governs_pure (Expr.literal token)
  apply governs_consuming _ fun op =>
    governs_bind each fun operand => governs_pure (Expr.unary op operand)
  apply governs_consuming _ fun opening => governs_bind enclosed fun value =>
    governs_bind (governs_expect _ _) fun _ => governs_pure (Expr.unary opening value)
  refine governs_consuming _ (fun name => ?_) (governs_refuse_quoting _)
  apply governs_bind (governs_arguments enclosed)
  intro args
  cases args with
  | none => exact governs_pure (Expr.name name none)
  | some args => exact governs_pure (Expr.call name args none)

theorem governs_factor (n : Nat) : d.Governs (Rule.factor n : Told n Expr) (Rule.factor n) := by
  induction n with
  | zero => exact governs_never
  | succ n induction => exact governs_factor_of induction

theorem governs_expression (n : Nat) :
    d.Governs (Rule.expression n : Told n Expr) (Rule.expression n) :=
  governs_expr (governs_factor n)

end Expressions

section Commands

variable {command inner : Told n Command} {command' inner' : Rule n Command} {expr : Told n Expr}
  {expr' : Rule n Expr}

/-- Behind a broken command stands the token that ended it, which may be the refused one. -/
theorem clears_command_or_none (each : d.Governs command command') :
    Clears d.clear (Rule.commandOrNone command) (Rule.commandOrNone command')
      fun _ => d.held Kind.endsCommand := by
  apply clears_bind each
  intro read
  apply clears_bind ((clears_recover Kind.endsCommand).under fun _ => ends_of_verdict)
  intro _
  exact clears_pure fun _ held => held

theorem clears_command_behind (each : d.Governs command command') (semicolon : Token) :
    Clears (d.behind semicolon) (Rule.commandBehind command semicolon)
      (Rule.commandBehind command' semicolon) fun _ => d.held Kind.endsCommand := by
  apply clears_bind (clears_sees _)
  intro ended
  cases ended with
  | true =>
      apply clears_bind ((clears_warn_behind semicolon _).under fun _ start => start.1)
      intro _
      exact clears_pure fun _ => held_of_clear
  | false => exact (clears_command_or_none each).under fun _ start => d.passed start.1

/-- A list of commands leaves at most an `end` that was refused before. -/
theorem clears_command_list (each : d.Governs command command') :
    Clears d.clear (Rule.commandList command) (Rule.commandList command')
      fun _ => d.held fun kind => kind = .endKw := by
  apply clears_passing .commandList _ (fun _ => d.calm_of_held) fun _ _ => d.calm_of_held
  apply clears_bind (clears_sees _)
  intro ended
  cases ended with
  | true => exact clears_pure fun _ start => held_of_clear start.1
  | false =>
      apply clears_bind ((clears_command_or_none each).under fun _ start => start.1)
      intro first
      apply clears_bind (clears_row_steps _ (clears_command_behind each) n (Nat.le_succ n))
      intro others
      apply clears_pure
      intro s held
      apply mono held
      intro kind
      cases kind <;> decide

theorem governs_block (each : d.Governs command command') (opening : Token) :
    d.Governs (Rule.block command opening) (Rule.block command' opening) := by
  apply governs_trying .block
  apply of_step_bind (clears_command_list each)
  intro commands
  exact run_bind (clears_expect _ _) fun _ => governs_pure (Command.block opening commands)

theorem governs_assignment_or_call (each : d.Governs expr expr') (name : Token) :
    d.Governs (Rule.assignmentOrCall expr name) (Rule.assignmentOrCall expr' name) := by
  refine governs_take_bind _ (fun op => ?_) ?_
  · exact (governs_bind each fun value => governs_pure (Command.assign ⟨op, name, value⟩)).behind op
  · exact governs_bind (governs_arguments each) fun args => governs_pure _

theorem governs_for_loop (exprs : d.Governs expr expr') (each : d.Governs command command')
    (keyword : Token) :
    d.Governs (Rule.forLoop expr command keyword) (Rule.forLoop expr' command' keyword) :=
  governs_trying .forLoop (governs_bind (governs_expect _ _) fun _ =>
    governs_bind (governs_expect _ _) fun _ => governs_bind exprs fun _ =>
      governs_bind (governs_expect_any _ (governs_refuse _)) fun _ =>
        governs_bind exprs fun _ => governs_bind (governs_expect _ _) fun _ =>
          governs_bind each fun _ => governs_pure _)

theorem governs_command_of (exprs : d.Governs expr expr') (each : d.Governs inner inner') :
    d.Governs (Rule.commandOf expr inner) (Rule.commandOf expr' inner') := by
  apply governs_trying .command
  apply governs_consuming _ (governs_assignment_or_call exprs)
  apply governs_consuming _ (governs_block each)
  refine governs_consuming _ (fun keyword => ?_) ?_
  · apply governs_bind exprs
    intro condition
    apply governs_bind (governs_expect _ _)
    intro _
    apply governs_bind each
    intro branch
    refine governs_take_bind _ (fun _ => ?_) (governs_pure (Command.ifThen keyword condition branch))
    exact (governs_bind each fun otherwise =>
      governs_pure (Command.ifElse keyword condition branch otherwise)).behind _
  refine governs_consuming _ (fun keyword => ?_) ?_
  · apply governs_bind exprs
    intro condition
    apply governs_bind (governs_expect _ _)
    intro _
    exact governs_bind each fun body => governs_pure (Command.whileDo keyword condition body)
  exact governs_consuming _ (governs_for_loop exprs each) (governs_refuse_quoting _)

theorem governs_command (n : Nat) :
    d.Governs (Rule.command n : Told n Command) (Rule.command n) := by
  induction n with
  | zero => exact governs_never
  | succ n induction => exact governs_command_of (governs_expression n) induction

end Commands

section Declarations

theorem governs_identifier : d.Governs (Rule.identifier : Told n Token) Rule.identifier :=
  governs_expect_any _ (governs_refuse_quoting _)

theorem governs_type_name : d.Governs (Rule.typeName : Told n Token) Rule.typeName :=
  governs_expect_any _ (governs_refuse_quoting _)

theorem governs_group (first : Token) :
    d.Governs (Rule.group first : Told n Declaration) (Rule.group first) :=
  governs_bind (governs_row _ fun _ => governs_identifier) fun others =>
    governs_bind (governs_expect _ _) fun _ =>
      governs_bind governs_type_name fun type =>
        governs_pure (Declaration.mk type (first :: others))

theorem governs_variable_group (first : Token) :
    d.Governs (Rule.variableGroup first : Told n Declaration) (Rule.variableGroup first) :=
  governs_bind (governs_group first) fun declaration =>
    governs_bind (governs_expect _ _) fun _ => governs_pure declaration

theorem governs_param_group : d.Governs (Rule.paramGroup : Told n Declaration) Rule.paramGroup :=
  governs_bind governs_identifier governs_group

/-- How a row leaves the parse: calm if it was read to its end. -/
def rowEnd (d : Discipline) (read : Row α) (s : ParseState) : Prop :=
  if read.complete then d.clear s else d.broken s

theorem row_end_complete {items : List α} {s : ParseState} (clear : d.clear s) :
    d.rowEnd ⟨items, true⟩ s := clear

theorem row_end_broken {items : List α} {s : ParseState} (broken : d.broken s) :
    d.rowEnd ⟨items, false⟩ s := broken

theorem ends_of_row_end {read : Row α} {s : ParseState} (reached : d.rowEnd read s) :
    d.ends kinds s := by
  unfold rowEnd at reached
  split at reached
  · exact .inl (held_of_clear reached)
  · exact .inr reached

theorem clears_row_end (opens : Kind → Bool) {item : Token → Told n α}
    {item' : Token → Rule n α} (each : ∀ token, d.Governs (item token) (item' token)) (m : Nat)
    (fits : m ≤ n + 1) :
    Clears d.clear (Step.row opens item m fits) (Step.row opens item' m fits) d.rowEnd := by
  have row := clears_row opens (fun token => (each token).behind token) m fits
  refine row.weaken (fun _ clear => clear) ?_
  intro read s reached
  unfold rowEnd
  cases complete : read.complete with
  | true =>
      rw [complete] at reached
      exact mono reached fun _ none => none
  | false =>
      rw [complete] at reached
      exact reached

theorem abandoned_iff_panicking {read : Row α} {s : ParseState} (reached : d.rowEnd read s) :
    (!read.complete) = true ↔ s.panicking = true := by
  unfold rowEnd at reached
  cases complete : read.complete with
  | true =>
      rw [complete] at reached
      have quiet := d.calm_of_held reached
      simp [quiet]
  | false =>
      rw [complete] at reached
      exact ⟨fun _ => d.panicking_of_broken reached, fun _ => rfl⟩

theorem clears_trying_row (attempt : Attempt) {account : Account n (Row α)}
    {step : Step n (Row α)} (clears : Clears d.clear account step d.rowEnd) :
    Clears d.clear (Parsing.trying attempt (fun read => !read.complete) account)
      (Parsing.trying attempt (fun read => !read.complete) step) d.rowEnd :=
  clears_trying attempt clears (fun _ => d.calm_of_held) fun _ _ => abandoned_iff_panicking

/-- The items of a row are kept even if it was abandoned. -/
theorem clears_items {account : Account n (Row α)} {step : Step n (Row α)}
    (clears : Clears d.clear account step d.rowEnd) :
    Clears d.clear (Row.items <$> account) (Row.items <$> step) fun _ => d.ends fun _ => false := by
  apply clears_bind clears
  intro read
  exact clears_pure fun _ => ends_of_row_end

theorem clears_variable_groups :
    Clears d.clear (Step.variableGroups : Account n (Row Declaration)) Step.variableGroups
      d.rowEnd := by
  apply clears_trying_row .variableGroups
  apply clears_bind (clears_sees _)
  intro named
  cases named with
  | true =>
      exact (clears_row_end _ governs_variable_group n (Nat.le_succ n)).under fun _ start => start.1
  | false =>
      apply clears_bind ((refuse_quoting_abandons _).under fun _ start => start.1)
      intro _
      exact clears_pure fun _ abandoned => row_end_broken abandoned.2

/-- Behind the variables stands at most a `procedure` or `begin` that was refused before. -/
theorem clears_var_section :
    Clears (d.held Kind.endsHeader) (Step.varSection : Account n (Option Variables))
      Step.varSection fun _ => d.held Kind.endsVariables := by
  apply clears_passing .varSection _ (fun _ => d.calm_of_held) fun _ _ => d.calm_of_held
  apply clears_take_bind
  · intro keyword
    apply clears_bind ((clears_items clears_variable_groups).under fun _ => d.passed)
    intro groups
    apply clears_bind (clears_recover Kind.endsVariables)
    intro _
    exact clears_pure fun _ held => held
  · apply clears_pure
    intro s held
    apply mono held
    intro kind
    cases kind <;> decide

theorem clears_param_groups :
    Clears d.clear (Step.paramGroups : Account n (Row Declaration)) Step.paramGroups d.rowEnd := by
  apply clears_trying_row .paramGroups
  apply clears_bind governs_param_group
  intro first
  cases first with
  | none => exact clears_pure fun _ => row_end_broken
  | some first =>
      apply clears_bind (clears_row_end _ (fun _ => governs_param_group) n (Nat.le_succ n))
      intro others
      unfold rowEnd
      cases others.complete with
      | false => exact clears_pure fun _ => row_end_broken
      | true =>
          apply clears_bind (governs_expect _ _)
          intro closed
          cases closed with
          | none => exact clears_pure fun _ => row_end_broken
          | some closing => exact clears_pure fun _ => row_end_complete

theorem clears_params (opening : Token) :
    Clears (d.behind opening) (Step.params opening : Account n (Option Variables))
      (Step.params opening) fun _ => d.ends fun _ => false := by
  have taken : Clears d.clear (Step.params opening : Account n (Option Variables))
      (Step.params opening) fun _ => d.ends fun _ => false := by
    apply clears_take_bind
    · intro closing
      apply clears_bind (clears_warn_behind closing _)
      intro _
      exact clears_pure fun _ clear => .inl clear
    · apply clears_bind ((clears_items clears_param_groups).under
        fun _ held => mono held fun _ none => none)
      intro _
      exact clears_pure fun _ reached => reached
  exact taken.under fun _ => d.passed

end Declarations

section Programs

theorem clears_expect_or (kind : Kind) (problem : SyntacticProblem) (standIn : Kind) :
    Clears (d.held fun other => other = kind) (Step.expectOr kind problem standIn : Account n Token)
      (Step.expectOr kind problem standIn) fun _ => d.ends fun _ => false := by
  apply clears_bind clears_current
  intro found
  apply clears_bind ((clears_expect kind problem).under fun _ start => start.1)
  intro _
  exact clears_pure fun _ => ends_of_verdict

theorem clears_expect_only (kind : Kind) (problem : SyntacticProblem) :
    Clears (d.held fun other => other = kind)
      (do let _ ← (Rule.expect kind problem).run : Account n Unit)
      (do let _ ← (Rule.expect kind problem).run) fun _ => d.ends fun _ => false := by
  apply clears_bind (clears_expect kind problem)
  intro _
  exact clears_pure fun _ => ends_of_verdict

theorem clears_unless_panicking {others : Kind → Bool} {otherwise : α} {account : Account n α}
    {step : Step n α} (clears : Clears (d.held kinds) account step fun _ => d.ends others) :
    Clears (d.ends kinds) (Step.unlessPanicking otherwise account)
      (Step.unlessPanicking otherwise step) fun _ => d.ends others := by
  apply clears_bind clears_panicking
  intro panics
  cases panics with
  | true => exact clears_pure fun _ start => .inr (broken_of_ends start.1 start.2)
  | false => exact clears.under fun _ start => held_of_ends start.1 start.2

/-- The parameters may be left out: what is not a parenthesis has to be the semicolon. -/
theorem clears_optional_params :
    Clears (d.held fun kind => kind = .lparen || kind = .semicolon)
      (do
        match ← Parsing.take (· = .lparen) with
        | some opening => Step.params opening
        | none => return none : Account n (Option Variables))
      (do
        match ← Parsing.take (· = .lparen) with
        | some opening => Step.params opening
        | none => return none) fun _ => d.ends fun kind => kind = .semicolon := by
  apply clears_take_bind
  · intro opening
    refine (clears_params opening).weaken (fun _ behind => behind) ?_
    intro _ s reached
    exact reached.imp held_of_clear id
  · apply clears_pure
    intro s held
    left
    apply mono held
    intro kind
    cases kind <;> decide

theorem clears_header_rest (name : Token) {params : Account n (Option Variables)}
    {params' : Step n (Option Variables)}
    (given : Clears (d.held fun kind => kind = .lparen || kind = .semicolon) params params'
      fun _ => d.ends fun kind => kind = .semicolon) :
    Clears (d.ends fun kind => kind = .lparen || kind = .semicolon)
      (do
        let params ← Step.unlessPanicking none params
        Step.unlessPanicking () do
          let _ ← (Rule.expect .semicolon .procedureHeaderEnd).run
        Parsing.recover Kind.endsHeader
        return (name, params))
      (do
        let params ← Step.unlessPanicking none params'
        Step.unlessPanicking () do
          let _ ← (Rule.expect .semicolon .procedureHeaderEnd).run
        Parsing.recover Kind.endsHeader
        return (name, params)) fun _ => d.held Kind.endsHeader := by
  apply clears_bind (clears_unless_panicking given)
  intro params
  apply clears_bind (clears_unless_panicking (clears_expect_only _ _))
  intro _
  apply clears_bind (clears_recover Kind.endsHeader)
  intro _
  exact clears_pure fun _ held => held

/-- A header that lacks only its name is read on at the token that stands in its place. -/
theorem clears_procedure_header :
    Clears d.clear (Step.procedureHeader : Account n (Token × Option Variables))
      Step.procedureHeader fun _ => d.held Kind.endsHeader := by
  apply clears_bind ((clears_expect_or _ _ _).under fun _ => held_of_clear)
  intro name
  apply clears_bind (clears_sees _)
  intro faced
  cases faced with
  | true =>
      apply clears_bind (clears_calm fun kind => kind = .lparen || kind = .semicolon)
      intro _
      exact (clears_header_rest name clears_optional_params).under fun _ held => .inl held
  | false =>
      exact (clears_header_rest name clears_optional_params).under
        fun _ start => start.1.imp held_of_clear id

theorem clears_body {closing : Account n Unit} {closing' : Step n Unit}
    (closes : Clears d.clear closing closing' fun _ => d.ends fun _ => false) :
    Clears (d.held fun kind => kind = .beginKw) (Step.body closing) (Step.body closing')
      fun _ => d.ends fun _ => false := by
  apply clears_bind clears_current
  intro found
  apply clears_bind ((clears_expect _ _).under fun _ start => start.1)
  intro opening
  cases opening with
  | none => exact clears_pure fun _ broken => .inr broken
  | some opening =>
      apply clears_bind (clears_command_list (governs_command n))
      intro commands
      apply clears_bind (clears_expect _ _)
      intro closed
      cases closed with
      | none => exact clears_pure fun _ broken => .inr broken
      | some _ =>
          apply clears_bind closes
          intro _
          exact clears_pure fun _ reached => reached

theorem clears_procedure_end :
    Clears d.clear (Step.procedureEnd : Account n Unit) Step.procedureEnd
      fun _ => d.ends fun _ => false := by
  apply clears_take_bind
  · intro semicolon
    exact clears_pure fun _ behind => .inl (d.passed behind)
  · apply clears_bind (clears_current.under fun _ held => mono held fun _ none => none)
    intro token
    refine (clears_warn ?_).weaken (fun _ start => start) fun _ _ => .inl
    rintro s ⟨clear, here⟩
    rw [← here]
    exact d.warnHere _ clear

/-- What follows a procedure is another one, or the body of what it belongs to. -/
theorem clears_procedure {nested : Account n (List Program)} {nested' : Step n (List Program)}
    (inner : Clears (d.held Kind.endsVariables) nested nested'
      fun _ => d.held fun kind => kind = .beginKw)
    (keyword : Token) :
    Clears (d.behind keyword) (Step.procedure nested keyword) (Step.procedure nested' keyword)
      fun _ => d.held Kind.endsVariables := by
  apply clears_passing .procedure _ (fun _ behind => d.calm_of_held (d.passed behind))
    fun _ _ => d.calm_of_held
  apply clears_bind (clears_procedure_header.under fun _ => d.passed)
  intro header
  apply clears_bind clears_var_section
  intro locals
  apply clears_bind inner
  intro procedures
  apply clears_bind (clears_body clears_procedure_end)
  intro bodies
  apply clears_bind (clears_recover Kind.endsVariables)
  intro _
  exact clears_pure fun _ held => held

theorem clears_procedure_row {nested : Account n (List Program)} {nested' : Step n (List Program)}
    (inner : Clears (d.held Kind.endsVariables) nested nested'
      fun _ => d.held fun kind => kind = .beginKw) :
    Clears (d.held Kind.endsVariables) (Step.procedureRow nested) (Step.procedureRow nested')
      fun _ => d.held fun kind => kind = .beginKw := by
  apply clears_passing .procedures _ (fun _ => d.calm_of_held) fun _ _ => d.calm_of_held
  apply clears_bind (clears_row_steps _ (clears_procedure inner) (n + 1) (Nat.le_refl _))
  intro read
  apply clears_pure
  intro s held
  apply mono held
  intro kind
  cases kind <;> decide

theorem clears_procedures (n : Nat) :
    Clears (d.held Kind.endsVariables) (Step.procedures n : Account n (List Program))
      (Step.procedures n) fun _ => d.held fun kind => kind = .beginKw := by
  induction n with
  | zero => exact clears_never
  | succ n induction => exact clears_procedure_row induction

theorem clears_program_header :
    Clears d.clear (Step.programHeader : Account n (Token × Token)) Step.programHeader
      fun _ => d.held Kind.endsHeader := by
  apply clears_bind ((clears_expect_or _ _ _).under fun _ => held_of_clear)
  intro keyword
  apply clears_bind clears_current
  intro found
  have name : Clears d.clear (Step.expectOr .ident .programName .unknown : Account n Token)
      (Step.expectOr .ident .programName .unknown) fun _ => d.ends fun _ => false :=
    (clears_expect_or _ _ _).under fun _ => held_of_clear
  have closes : Clears d.clear
      (do let _ ← (Rule.expect .semicolon .programHeaderEnd).run : Account n Unit)
      (do let _ ← (Rule.expect .semicolon .programHeaderEnd).run)
      fun _ => d.ends fun _ => false := (clears_expect_only _ _).under fun _ => held_of_clear
  apply clears_bind ((clears_unless_panicking name).under fun _ start => start.1)
  intro name
  apply clears_bind (clears_unless_panicking closes)
  intro _
  apply clears_bind (clears_recover Kind.endsHeader)
  intro _
  exact clears_pure fun _ held => held

theorem clears_program (n : Nat) :
    Clears d.clear (Step.program n : Account n Program) (Step.program n)
      fun _ => d.ends fun _ => false := by
  apply clears_bind clears_program_header
  intro header
  apply clears_bind clears_var_section
  intro locals
  apply clears_bind (clears_procedures n)
  intro procedures
  apply clears_bind (clears_body ((clears_expect_only _ _).under fun _ => held_of_clear))
  intro bodies
  exact clears_pure fun _ reached => reached

end Programs

end TinyPascal.Discipline
