import TinyPascal.Proofs.Scoping.Itinerary
import TinyPascal.Proofs.Walk.Basic

/-!
# The walk follows the itinerary

The checker does one thing at every stop of the itinerary: it looks a name up, declares it,
marks it, or opens or closes a scope. Between the stops it only compares types. So every walk
over a program stops where the itinerary says, in that order, and nowhere else.
-/

namespace TinyPascal

set_option autoImplicit false

def SemanticProblem.isTyping : SemanticProblem → Bool
  | booleanResult _ | numberResult | mismatch _ _ => true
  | _ => false

/-- Whether a diagnostic is a finding of the checker that `test` holds of. -/
def Diagnostic.concerns (test : SemanticProblem → Bool) (diagnostic : Diagnostic) : Bool :=
  match diagnostic.problem with
  | .semantic problem => test problem
  | _ => false

def WalkEvent.isTyping : WalkEvent → Bool
  | reported diagnostic => diagnostic.concerns SemanticProblem.isTyping
  | arithmetic _ _ => true
  | entered _ | left _ _ => false

/-- From `s` to `s'` only types were compared. -/
structure WalkState.Idles (s s' : WalkState) : Prop where
  table : s'.table = s.table
  trace : ∃ more, s'.trace = more ++ s.trace ∧ ∀ event ∈ more, event.isTyping = true

namespace WalkState.Idles

variable {s s' s'' : WalkState}

theorem refl (s : WalkState) : Idles s s := ⟨rfl, [], rfl, by simp⟩

theorem trans (first : Idles s s') (second : Idles s' s'') : Idles s s'' := by
  rcases first with ⟨table, more, trace, typing⟩
  rcases second with ⟨table', more', trace', typing'⟩
  apply Idles.mk (table'.trans table)
  apply Exists.intro (more' ++ more)
  constructor
  · rw [trace', trace, List.append_assoc]
  · intro event member
    rw [List.mem_append] at member
    exact member.elim (typing' event) (typing event)

theorem noted {event : WalkEvent} (typing : event.isTyping = true) :
    Idles s { s with trace := event :: s.trace } :=
  ⟨rfl, [event], rfl, by simpa using typing⟩

end WalkState.Idles

namespace Walk

variable {s : WalkState}

theorem idles_report {problem : SemanticProblem} (typing : problem.isTyping = true)
    (token : Token) : s.Idles ((report token problem).after s) := .noted typing

theorem idles_compare (expected : Option ScalarType) (actual : Operand) (token : Token) :
    s.Idles ((compare expected actual token).after s) := by
  unfold compare
  split
  · exact .refl s
  · split
    · exact .refl s
    · exact idles_report rfl token

theorem idles_give_boolean (expected : Option ScalarType) (op : Token) :
    s.Idles ((giveBoolean expected op).after s) := by
  unfold giveBoolean
  split
  · exact .refl s
  · exact .refl s
  · exact idles_report rfl op

theorem idles_give_number (expected : Option ScalarType) (op : Token) {free : Walk ScalarType}
    (unchanged : free.after s = s) : s.Idles ((giveNumber expected op free).after s) := by
  unfold giveNumber
  split
  · exact idles_report rfl op
  · exact .refl s
  · rw [unchanged]
    exact .refl s

end Walk

def Declared.walk : Declared → Walk Unit
  | program token => do
      Walk.setTable ((← Walk.table).define token.lexeme (.ofProgram token)).2
  | procedure token params =>
      Walk.define token (.ofProcedure token params) (.redeclaredProcedure token.lexeme)
  | param token type => Walk.define token (.ofParam token type) (.redeclaredVariable token.lexeme)
  | var token type => Walk.define token (.ofVariable token type) (.redeclaredVariable token.lexeme)

/-- What the checker does where a name is mentioned. A name read in an expression stands in a
place of type `expected`. The types left at the node of a call are handed back. -/
def Mention.walk (expected : Option ScalarType) (token : Token) :
    Mention → Walk (List (Option ScalarType))
  | target op => do
      let _ ← Walk.checkTarget op token
      return []
  | control op => do
      Walk.checkControl op token
      return []
  | callee supplied resolved => do
      let _ ← Walk.checkCall token supplied
      return [resolved]
  | operand resolved => do
      return [(← Walk.checkName expected token).or resolved]
  | applied supplied resolved => do
      let _ ← Walk.checkCallee token supplied
      return [resolved]

def Naming.assign (token : Token) : Walk Unit := do
  if ((← Walk.lookup token.lexeme).bind Entry.type?).isSome then
    Walk.markAssigned token.lexeme

def Naming.walk (expected : Option ScalarType) : Naming → Walk (List (Option ScalarType))
  | declare declared => do
      declared.walk
      return []
  | mention how token => how.walk expected token
  | assigned token => do
      assign token
      return []

def Act.walk (expected : Option ScalarType) : Act → Walk (List (Option ScalarType))
  | naming event => event.walk expected
  | enter => do
      Walk.enterScope
      return []
  | leave => do
      Walk.leaveScope
      return []
  | finish => do
      Walk.reportUnused (← Walk.table).global
      return []

/-- From `s` the checker makes all of `stops`, in order and no others, and ends in `s'`. `types`
are those left at the nodes of the calls it comes by. -/
inductive Stops.Reaches : Stops → List (Option ScalarType) → WalkState → WalkState → Prop where
  | here (s : WalkState) : Reaches [] [] s s
  | idle {stops : Stops} {types : List (Option ScalarType)} {s s' s'' : WalkState}
      (typing : s.Idles s') (rest : Reaches stops types s' s'') : Reaches stops types s s''
  | stop (expected : Option ScalarType) {first : Stop} {others : Stops}
      {types : List (Option ScalarType)} {s s' : WalkState}
      (rest : Reaches others types ((first.act.walk expected).after s) s') :
      Reaches (first :: others) ((first.act.walk expected).value s ++ types) s s'

namespace Stops.Reaches

variable {stops others : Stops} {types more : List (Option ScalarType)} {s s' s'' : WalkState}

theorem append (first : Reaches stops types s s') (second : Reaches others more s' s'') :
    Reaches (stops ++ others) (types ++ more) s s'' := by
  induction first with
  | here => exact second
  | idle typing rest induction => exact .idle typing (induction second)
  | stop expected rest induction =>
      rw [List.append_assoc]
      exact .stop expected (induction second)

theorem cons (scope : Address) (naming : Naming) (expected : Option ScalarType)
    (rest : Reaches others types ((naming.walk expected).after s) s') :
    Reaches (⟨scope, .naming naming⟩ :: others) ((naming.walk expected).value s ++ types) s s' :=
  .stop expected rest

theorem enclosed {scope : Address} (inside : Reaches stops types (Walk.enterScope.after s) s') :
    Reaches (Stops.enclosed scope stops) types s (Walk.leaveScope.after s') := by
  have closing : Reaches [⟨scope, .leave⟩] [] s' (Walk.leaveScope.after s') := .stop none (.here _)
  have whole : Reaches (⟨scope, .enter⟩ :: (stops ++ [⟨scope, .leave⟩])) (types ++ []) s
      (Walk.leaveScope.after s') := .stop none (inside.append closing)
  rwa [List.append_nil] at whole

theorem split (whole : Reaches (stops ++ others) types s s'') :
    ∃ front back s', types = front ++ back ∧ Reaches stops front s s' ∧
      Reaches others back s' s'' := by
  generalize both : stops ++ others = all at whole
  induction whole generalizing stops with
  | here s =>
      rw [List.append_eq_nil_iff] at both
      rw [both.1, both.2]
      exact ⟨[], [], s, rfl, .here s, .here s⟩
  | idle typing rest induction =>
      rcases induction both with ⟨front, back, between, same, before, behind⟩
      exact ⟨front, back, between, same, .idle typing before, behind⟩
  | @stop expected first tail types s s' rest induction =>
      cases stops with
      | nil =>
          rw [List.nil_append] at both
          rw [both]
          exact ⟨[], _, s, rfl, .here s, .stop expected rest⟩
      | cons head stops =>
          rw [List.cons_append, List.cons.injEq] at both
          rcases induction both.2 with ⟨front, back, between, same, before, behind⟩
          rw [both.1, same, ← List.append_assoc]
          exact ⟨_, back, between, rfl, .stop expected before, behind⟩

theorem idles (reached : Reaches stops types s s') (typing : s'.Idles s'') :
    Reaches stops types s s'' := by
  have both := reached.append (.idle typing (.here s''))
  rwa [List.append_nil, List.append_nil] at both

theorem uncons {stop : Stop} (whole : Reaches (stop :: others) types s s'') :
    ∃ s' expected back, s.Idles s' ∧ Reaches others back ((stop.act.walk expected).after s') s'' ∧
      types = (stop.act.walk expected).value s' ++ back := by
  generalize all : stop :: others = stops at whole
  induction whole with
  | here => cases all
  | idle typing rest induction =>
      rcases induction all with ⟨between, expected, back, idles, behind, same⟩
      exact ⟨between, expected, back, typing.trans idles, behind, same⟩
  | @stop expected first tail types s s' rest induction =>
      cases all
      exact ⟨s, expected, types, .refl s, rest, rfl⟩

theorem split_stop {stop : Stop} (whole : Reaches (stops ++ stop :: others) types s s'') :
    ∃ front back s' expected, Reaches stops front s s' ∧
      Reaches others back ((stop.act.walk expected).after s') s'' ∧
      types = front ++ ((stop.act.walk expected).value s' ++ back) := by
  rcases whole.split with ⟨front, back, between, same, before, behind⟩
  rcases behind.uncons with ⟨reached, expected, rest, typing, further, parts⟩
  exact ⟨front, rest, reached, expected, before.idles typing, further, by rw [same, parts]⟩

end Stops.Reaches

namespace Walk

open Stops

theorem within_append (scope : Address) (namings others : List Naming) :
    within scope (namings ++ others) = within scope namings ++ within scope others := by
  unfold within
  rw [List.map_append]

mutual

theorem reaches_expression (scope : Address) (expected : Option ScalarType) (s : WalkState) :
    (expr : Expr) → Reaches (within scope expr.namings)
      ((expression expected expr).value s).callTypes s ((expression expected expr).after s)
  | .literal token => by
      simp only [expression]
      split
      · exact .idle (idles_compare expected _ token) (.here _)
      · exact .here s
  | .name token resolved => by
      simp only [expression, Expr.namings]
      exact .cons scope (.mention (.operand resolved) token) expected (.here _)
  | .call token args resolved => by
      simp only [expression, Expr.namings]
      exact .cons scope (.mention (.applied args.length resolved) token) expected
        (reaches_arguments scope _ _ args)
  | .unary op operand => by
      simp only [expression, Expr.namings]
      split
      · exact reaches_expression scope expected s operand
      · exact .idle (idles_give_boolean expected op) (reaches_expression scope _ _ operand)
      · exact .idle (idles_give_number expected op rfl) (reaches_expression scope _ _ operand)
  | .binary op left right resolved => by
      simp only [expression, Expr.namings, within_append]
      split
      · exact .idle (idles_give_boolean expected op)
          ((reaches_expression scope _ _ left).append (reaches_expression scope _ _ right))
      · exact .idle (idles_give_number expected op (after_free op _ s))
          (.idle (.noted rfl)
            ((reaches_expression scope _ _ left).append (reaches_expression scope _ _ right)))

theorem reaches_arguments (scope : Address) (params : List ScalarType) (s : WalkState) :
    (args : List Expr) → Reaches (within scope (Expr.namingsAll args))
      (Expr.callTypesAll ((arguments params args).value s)) s ((arguments params args).after s)
  | [] => .here s
  | first :: others => by
      simp only [arguments, Expr.namingsAll, within_append]
      exact (reaches_expression scope _ s first).append (reaches_arguments scope _ _ others)

end

theorem check_target_eq (op target : Token) (s : WalkState) :
    (checkTarget op target).value s = (s.table.lookup target.lexeme).bind Entry.type? ∧
      ((checkTarget op target).after s).table = s.table := by
  unfold checkTarget
  simp only [value_bind, after_bind, value_lookup, after_lookup]
  cases found : s.table.lookup target.lexeme with
  | none => exact ⟨rfl, rfl⟩
  | some entry =>
      rcases entry with ⟨token, meaning, initialized, used⟩
      cases meaning <;> exact ⟨rfl, rfl⟩

/-- A target is mentioned, the value is read, and the target is assigned to. -/
theorem reaches_value (scope : Address) (how : Token → Mention) (node : Assignment)
    (expected : Option ScalarType) (s : WalkState)
    (bare : ((how node.op).walk none node.target).value s = []) :
    Reaches (within scope (Command.assignmentNamings how node))
      ((expression expected node.value).value
        (((how node.op).walk none node.target).after s)).callTypes s
      ((Naming.assign node.target).after ((expression expected node.value).after
        (((how node.op).walk none node.target).after s))) := by
  have read := reaches_expression scope expected (((how node.op).walk none node.target).after s)
    node.value
  have whole := Reaches.cons scope (.mention (how node.op) node.target) none
    (read.append (.cons scope (.assigned node.target) none (.here _)))
  change Reaches _ (((how node.op).walk none node.target).value s ++ (_ ++ [])) s _ at whole
  rw [bare, List.nil_append, List.append_nil] at whole
  simp only [Command.assignmentNamings, within, List.map_cons, List.map_append, List.map_nil]
  exact whole

theorem reaches_assignment (scope : Address) (node : Assignment) (s : WalkState) :
    Reaches (within scope (Command.assignmentNamings .target node))
      ((assignment node).value s).value.callTypes s ((assignment node).after s) := by
  rcases check_target_eq node.op node.target s with ⟨type, table⟩
  have whole := reaches_value scope .target node ((checkTarget node.op node.target).value s) s rfl
  -- reading the value changes no type, so the target is still a variable if it was one
  have kept := (reads_expression ((checkTarget node.op node.target).value s) node.value
    ((checkTarget node.op node.target).after s)).type_eq node.target.lexeme
  rw [table, ← type] at kept
  simp only [Mention.walk, Naming.assign, after_bind, after_pure, value_lookup, after_lookup, kept]
    at whole
  simp only [assignment, after_bind, value_bind]
  by_cases assignable : ((checkTarget node.op node.target).value s).isSome = true
  · rw [if_pos assignable] at whole ⊢
    exact whole
  · rw [if_neg assignable] at whole ⊢
    exact whole

theorem reaches_loop_start (scope : Address) (node : Assignment) (s : WalkState) :
    Reaches (within scope (Command.assignmentNamings .control node))
      ((loopStart node).value s).value.callTypes s ((loopStart node).after s) := by
  have whole := reaches_value scope .control node (some .integer) s rfl
  simp only [Mention.walk, Naming.assign, after_bind, after_pure] at whole
  simp only [loopStart, after_bind, value_bind]
  split
  · next assignable =>
    rw [if_pos assignable] at whole
    exact whole
  · next assignable =>
    rw [if_neg assignable] at whole
    exact whole

theorem reaches_call_command (scope : Address) (token : Token) (args : Option (List Expr))
    (resolved : Option ScalarType) (s : WalkState) :
    Reaches (within scope (Command.call token args resolved).namings)
      (Command.call token ((callCommand token args).value s) resolved).callTypes s
        ((callCommand token args).after s) := by
  simp only [callCommand, Command.namings]
  cases args with
  | none => exact .cons scope (.mention (.callee 0 resolved) token) none (.here _)
  | some args =>
      exact .cons scope (.mention (.callee args.length resolved) token) none
        (reaches_arguments scope _ _ args)

mutual

theorem reaches_command (scope : Address) (s : WalkState) :
    (node : Command) → Reaches (within scope node.namings) ((command node).value s).callTypes s
      ((command node).after s)
  | .assign node => by
      simp only [command, Command.namings]
      exact reaches_assignment scope node s
  | .call token args resolved => by
      simp only [command]
      exact reaches_call_command scope token args resolved s
  | .ifThen keyword condition branch => by
      simp only [command, Command.namings, within_append]
      exact (reaches_expression scope _ s condition).append (reaches_command scope _ branch)
  | .ifElse keyword condition branch otherwise => by
      simp only [command, Command.namings, within_append]
      exact (reaches_expression scope _ s condition).append
        ((reaches_command scope _ branch).append (reaches_command scope _ otherwise))
  | .whileDo keyword condition body => by
      simp only [command, Command.namings, within_append]
      exact (reaches_expression scope _ s condition).append (reaches_command scope _ body)
  | .forDo keyword start direction bound body => by
      simp only [command, Command.namings, within_append]
      exact (reaches_loop_start scope start s).append
        ((reaches_expression scope _ _ bound).append (reaches_command scope _ body))
  | .block opening body => by
      simp only [command, Command.namings]
      exact reaches_commands scope s body

theorem reaches_commands (scope : Address) (s : WalkState) :
    (nodes : List Command) → Reaches (within scope (Command.namingsAll nodes))
      (Command.callTypesAll ((commands nodes).value s)) s ((commands nodes).after s)
  | [] => .here s
  | first :: others => by
      simp only [commands, Command.namingsAll, within_append]
      exact (reaches_command scope s first).append (reaches_commands scope _ others)

end

theorem reaches_declare (scope : Address) {kind : Token → ScalarType → Declared}
    {entryOf : Token → ScalarType → Entry}
    (each : ∀ token type, (kind token type).walk =
      define token (entryOf token type) (.redeclaredVariable token.lexeme))
    (vars : Option Variables) (s : WalkState) :
    Reaches (within scope ((Declared.ofVariables kind vars).map .declare)) [] s
      ((declare entryOf vars).after s) := by
  unfold Declared.ofVariables declare
  generalize (vars.map Variables.entries).getD [] = entries
  induction entries generalizing s with
  | nil => exact .here s
  | cons pair entries induction =>
      rcases pair with ⟨token, typeToken⟩
      rw [List.forM, after_bind]
      cases known : ScalarType.ofKind? typeToken.kind with
      | none =>
          simp only [List.filterMap_cons, known, Option.map_none]
          exact induction s
      | some type =>
          simp only [List.filterMap_cons, known, Option.map_some, List.map_cons]
          rw [← each]
          exact .cons scope (.declare (kind token type)) none (induction _)

theorem param_walk (token : Token) (type : ScalarType) :
    (Declared.param token type).walk =
      define token (.ofParam token type) (.redeclaredVariable token.lexeme) := rfl

theorem var_walk (token : Token) (type : ScalarType) :
    (Declared.var token type).walk =
      define token (.ofVariable token type) (.redeclaredVariable token.lexeme) := rfl

theorem reaches_declare_procedure (scope : Address) (name : Token) (params : Option Variables)
    (s : WalkState) :
    Reaches (within scope ((Declared.ofProcedure name params).map .declare)) [] s
      ((declareProcedure name params).after s) := by
  unfold Declared.ofProcedure declareProcedure
  split
  · exact .here s
  · exact .cons scope (.declare (.procedure name (paramTypes params))) none (.here _)

mutual

theorem reaches_procedure (scope : Address) (index : Nat) (s : WalkState) :
    (program : Program) → Reaches (program.procedureStops scope index)
      ((procedure program).value s).callTypes s ((procedure program).after s)
  | ⟨keyword, name, params, locals, nested, opening, body⟩ => by
      simp only [procedure, Program.procedureStops, List.map_append, within_append]
      have declared := (reaches_declare (index :: scope) param_walk params
        (enterScope.after ((declareProcedure name params).after s))).append
          (reaches_declare (index :: scope) var_walk locals _)
      have inside := declared.append ((reaches_procedures (index :: scope) 0 _ nested).append
        (reaches_commands (index :: scope) _ body))
      exact (reaches_declare_procedure scope name params s).append inside.enclosed

theorem reaches_procedures (scope : Address) (index : Nat) (s : WalkState) :
    (programs : List Program) → Reaches (Program.proceduresStops scope index programs)
      (Program.callTypesAll ((procedures programs).value s)) s ((procedures programs).after s)
  | [] => .here s
  | first :: others => by
      simp only [procedures, Program.proceduresStops]
      exact (reaches_procedure scope index s first).append
        (reaches_procedures scope (index + 1) _ others)

end

/-- The checker makes all stops of the itinerary but the last, and what it does there is the end
of the walk. -/
theorem reaches_end (node : Program) (s : WalkState) :
    ∃ stops s', node.itinerary = stops ++ [⟨[], .finish⟩] ∧
      Reaches stops ((program node).value s).callTypes s s' ∧
        (program node).after s = (reportUnused s'.table.global).after s' := by
  have named : Reaches [⟨[], .naming (.declare (.program node.name))⟩] [] s
      ((Declared.program node.name).walk.after s) := .cons [] _ none (.here _)
  have declared := named.append (reaches_declare [] var_walk node.locals _)
  have inside := declared.append ((reaches_procedures [] 0 _ node.procedures).append
    (reaches_commands [] _ node.body))
  exact ⟨_, _, rfl, inside, rfl⟩

theorem reaches_program (node : Program) (s : WalkState) :
    Reaches node.itinerary ((program node).value s).callTypes s ((program node).after s) := by
  rcases reaches_end node s with ⟨stops, s', parts, inside, final⟩
  have closing : Reaches [⟨[], .finish⟩] [] s' ((reportUnused s'.table.global).after s') :=
    .stop none (.here _)
  have whole := inside.append closing
  rw [List.append_nil] at whole
  rw [parts, final]
  exact whole

end Walk

end TinyPascal
