import TinyPascal.Proofs.Discipline.Rules
import TinyPascal.Proofs.Recovery.Isolation

/-!
# Panic mode is disciplined

The panic flag and the abandoning of rules are two ways in which a parse keeps track of an error.
They agree: whatever is told of a parse, each rule was entered without a panic, and left one behind
exactly if it was abandoned. So no error is raised on top of another.
-/

namespace TinyPascal

set_option autoImplicit false

namespace ParseState

theorem panicking_advance (s : ParseState) : s.advance.panicking = s.panicking := by
  unfold advance
  split
  · rfl
  · rfl

/-- The discipline that asks for nothing but the panic flag. -/
def mood : Discipline where
  held _ s := s.panicking = false
  behind _ s := s.panicking = false
  broken s := s.panicking = true
  calm_of_held calm := calm
  panicking_of_broken broken := broken
  narrow calm _ := calm
  atEnd calm _ := calm
  advance calm _ := (panicking_advance _).trans calm
  passed calm := calm
  refuse _ _ := rfl
  warnBehind _ calm := calm
  warnHere _ calm := calm
  calm _ := rfl

end ParseState

open ParseState Step

namespace Step

variable {n : Nat} {α : Type}

/-- Entered without a panic, the rule leaves one behind if and only if it is abandoned. -/
def PanicsIf (abandoned : α → Bool) (step : Step n α) : Prop :=
  Meets (fun s => s.panicking = false) step fun value s =>
    (abandoned value = true ↔ s.panicking = true)

/-- Entered without a panic, the rule leaves none behind. -/
def StaysCalm (step : Step n α) : Prop :=
  Meets (fun s => s.panicking = false) step fun _ s => s.panicking = false

end Step

/-- What the rules do to the panic flag where fewer than `n` tokens are unread. -/
structure PanicContracts (n : Nat) : Prop where
  variableGroups : (Step.variableGroups : Step n (Row Declaration)).PanicsIf fun read => !read.complete
  paramGroups : (Step.paramGroups : Step n (Row Declaration)).PanicsIf fun read => !read.complete
  command : (Rule.command n : Rule n Command).run.PanicsIf Option.isNone
  block : ∀ opening : Token,
    (Rule.block (Rule.command n) opening : Rule n Command).run.PanicsIf Option.isNone
  forLoop : ∀ keyword : Token,
    (Rule.forLoop (Rule.expression n) (Rule.command n) keyword : Rule n Command).run.PanicsIf
      Option.isNone
  arguments : (Rule.arguments (Rule.expression n) : Rule n (Option (List Expr))).run.PanicsIf
    Option.isNone
  commaList : (Rule.commaList (Rule.expression n) : Rule n (List Expr)).run.PanicsIf Option.isNone
  expr : (Rule.expression n : Rule n Expr).run.PanicsIf Option.isNone
  simpleExpr : (Rule.simpleExpr (Rule.factor n) : Rule n Expr).run.PanicsIf Option.isNone
  term : (Rule.term (Rule.factor n) : Rule n Expr).run.PanicsIf Option.isNone
  factor : (Rule.factor n : Rule n Expr).run.PanicsIf Option.isNone
  varSection : (Step.varSection : Step n (Option Variables)).StaysCalm
  procedures : (Step.procedures n : Step n (List Program)).StaysCalm
  procedure : ∀ keyword : Token,
    (Step.procedure (Step.procedures n) keyword : Step n Program).StaysCalm
  commandList : (Rule.commandList (Rule.command n) : Step n (List Command)).StaysCalm

namespace Account

variable {n : Nat} {α : Type}

/-- Wherever the account starts, it tells that `rule` was tried from there to where it ends. -/
def TellsTried (rule : Attempt) (abandoned : α → Bool) (account : Account n α) : Prop :=
  ∀ (s : ParseState) (bounded : s.unread.length < n),
    .tried rule s (account.step s bounded).state (abandoned (account.step s bounded).value) ∈
      account.incidents s bounded

/-- Wherever the account starts, it tells that `rule` was passed from there to where it ends. -/
def TellsPassed (rule : Passage) (account : Account n α) : Prop :=
  ∀ (s : ParseState) (bounded : s.unread.length < n),
    .passed rule s (account.step s bounded).state ∈ account.incidents s bounded

theorem tells_tried {rule : Attempt} {abandoned : α → Bool} {account : Account n α} :
    (trying rule abandoned account).TellsTried rule abandoned :=
  fun _ _ => List.mem_cons_self

theorem tells_passed {rule : Passage} {account : Account n α} :
    (passing rule account).TellsPassed rule :=
  fun _ _ => List.mem_cons_self

end Account

/-- Each of the rules tells of itself where fewer than `n` tokens are unread. -/
structure RulesTold (n : Nat) : Prop where
  variableGroups : (Step.variableGroups : Account n (Row Declaration)).TellsTried .variableGroups
    fun read => !read.complete
  paramGroups : (Step.paramGroups : Account n (Row Declaration)).TellsTried .paramGroups
    fun read => !read.complete
  command : (Rule.command n : Told n Command).run.TellsTried .command Option.isNone
  block : ∀ opening : Token,
    (Rule.block (Rule.command n) opening : Told n Command).run.TellsTried .block Option.isNone
  forLoop : ∀ keyword : Token,
    (Rule.forLoop (Rule.expression n) (Rule.command n) keyword : Told n Command).run.TellsTried
      .forLoop Option.isNone
  arguments : (Rule.arguments (Rule.expression n) : Told n (Option (List Expr))).run.TellsTried
    .arguments Option.isNone
  commaList : (Rule.commaList (Rule.expression n) : Told n (List Expr)).run.TellsTried .commaList
    Option.isNone
  expr : (Rule.expression n : Told n Expr).run.TellsTried .expr Option.isNone
  simpleExpr : (Rule.simpleExpr (Rule.factor n) : Told n Expr).run.TellsTried .simpleExpr
    Option.isNone
  term : (Rule.term (Rule.factor n) : Told n Expr).run.TellsTried .term Option.isNone
  factor : (Rule.factor n : Told n Expr).run.TellsTried .factor Option.isNone
  varSection : (Step.varSection : Account n (Option Variables)).TellsPassed .varSection
  procedures : (Step.procedures n : Account n (List Program)).TellsPassed .procedures
  procedure : ∀ keyword : Token,
    (Step.procedure (Step.procedures n) keyword : Account n Program).TellsPassed .procedure
  commandList : (Rule.commandList (Rule.command n) : Account n (List Command)).TellsPassed
    .commandList

theorem rules_told (n : Nat) : RulesTold n where
  variableGroups := Account.tells_tried
  paramGroups := Account.tells_tried
  command := by
    cases n with
    | zero => exact fun _ bounded => absurd bounded (Nat.not_lt_zero _)
    | succ n => exact Account.tells_tried
  block _ := Account.tells_tried
  forLoop _ := Account.tells_tried
  arguments := Account.tells_tried
  commaList := Account.tells_tried
  expr := Account.tells_tried
  simpleExpr := Account.tells_tried
  term := Account.tells_tried
  factor := by
    cases n with
    | zero => exact fun _ bounded => absurd bounded (Nat.not_lt_zero _)
    | succ n => exact Account.tells_tried
  varSection := Account.tells_passed
  procedures := by
    cases n with
    | zero => exact fun _ bounded => absurd bounded (Nat.not_lt_zero _)
    | succ n => exact Account.tells_passed
  procedure _ := Account.tells_passed
  commandList := Account.tells_passed

namespace Discipline

variable {n : Nat} {α : Type}

theorem Governs.panics_if {told : Told n α} {rule : Rule n α} (governs : mood.Governs told rule) :
    rule.run.PanicsIf Option.isNone :=
  governs.meets.weaken (fun _ calm => calm) fun _ _ => none_iff_panicking

theorem panics_if_abandoned {account : Account n (Row α)} {step : Step n (Row α)}
    (clears : account.Clears mood.clear step mood.rowEnd) : step.PanicsIf fun read => !read.complete :=
  clears.meets.weaken (fun _ calm => calm) fun _ _ => abandoned_iff_panicking

theorem panic_contracts (n : Nat) : PanicContracts n where
  variableGroups := panics_if_abandoned clears_variable_groups
  paramGroups := panics_if_abandoned clears_param_groups
  command := (governs_command n).panics_if
  block opening := (governs_block (governs_command n) opening).panics_if
  forLoop keyword := (governs_for_loop (governs_expression n) (governs_command n) keyword).panics_if
  arguments := (governs_arguments (governs_expression n)).panics_if
  commaList := (governs_comma_list (governs_expression n)).panics_if
  expr := (governs_expression n).panics_if
  simpleExpr := (governs_simple_expr (governs_factor n)).panics_if
  term := (governs_term (governs_factor n)).panics_if
  factor := (governs_factor n).panics_if
  varSection := (clears_var_section (d := mood)).meets
  procedures := (clears_procedures (d := mood) n).meets
  procedure keyword := (clears_procedure (clears_procedures (d := mood) n) keyword).meets
  commandList := (clears_command_list (governs_command (d := mood) n)).meets

end Discipline

namespace Parse

def incidents (source : String) : List Incident :=
  (Step.program _ : Account ((start (.ofText source)).unread.length + 1) Program).incidents
    (start (.ofText source)) (start (.ofText source)).fits

/-- In every parse the rules keep to the panic flag. Entered without a panic, each of them leaves
one behind exactly if it is abandoned. The account is one of the parser itself, it tells of every
rule that is read and of every syntax error in the order in which they are reported, and whatever it
tells of is disciplined: a rule is entered without a panic, and no error is raised in a panic. -/
theorem panic_mode_is_disciplined :
    (∀ n : Nat, PanicContracts n) ∧ (∀ n : Nat, RulesTold n) ∧
      (∀ n : Nat, (Step.program n : Account n Program).step = (Step.program n : Step n Program)) ∧
      ∀ source : String, (∀ incident ∈ incidents source, incident.IsDisciplined) ∧
        (ofText source).syntaxErrors = (incidents source).filterMap Incident.error? := by
  refine ⟨Discipline.panic_contracts, rules_told,
    fun n => (Discipline.clears_program (d := mood) n).same, ?_⟩
  intro source
  have lexical := Stream.lexical_of_text source
  have clears := Discipline.clears_program (d := mood) ((start (.ofText source)).unread.length + 1)
  have raised := (clears.complete _ (start (.ofText source)).fits
    (ready_start lexical).toOrderly).errors
  have last : (ofText source).remarks = (finalState (.ofText source)).remarks := rfl
  rw [clears.same, (consumed_start lexical).2] at raised
  rw [syntax_errors_eq, last]
  unfold incidents finalState lastState
  refine ⟨clears.disciplined _ _ (panicking_start _), ?_⟩
  exact raised

/-- A factor is missing behind an assignment sign. -/
theorem panic_behind_missing_factor :
    ∃ before after, .tried .factor before after true ∈ incidents "program p; begin x := end." ∧
      before.panicking = false ∧ after.panicking = true := by
  have found : (incidents "program p; begin x := end.").any (fun incident =>
      match incident with
      | .tried .factor _ _ true => true
      | _ => false) = true := by
    decide +kernel
  obtain ⟨incident, told, shape⟩ := List.any_eq_true.mp found
  have disciplined := (panic_mode_is_disciplined.2.2.2 _).1 incident told
  split at shape
  · exact ⟨_, _, told, disciplined.1, disciplined.2.mp rfl⟩
  · cases shape

end Parse

end TinyPascal
