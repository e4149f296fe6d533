import TinyPascal.Proofs.Walk.Annotation

/-!
# A second analysis

The first analysis fills in types and leaves everything else of a tree as it is. The second one
meets the same tables at the same nodes, and so it writes down the same types again.
-/

namespace TinyPascal

set_option autoImplicit false

namespace Walk

variable {α γ : Type}

/-- Started in the state in which `node` was checked, a second run over what came of it brings it
back as it is and ends where the first one ended. -/
structure Repeats (check : α → Walk α) (node : α) : Prop where
  value : ∀ s, (check ((check node).value s)).value s = (check node).value s
  after : ∀ s, (check ((check node).value s)).after s = (check node).after s

/-- The states agree because the second run is over the same tree but for its types. -/
theorem repeats_of_value {look : α → γ} {shown : α → α} {check : α → Walk α} {node : α}
    (mirrors : ∀ node, Mirrors .types look (check node) (check (shown node)))
    (keeps : Brings (check node) fun checked => shown checked = shown node)
    (value : ∀ s, (check ((check node).value s)).value s = (check node).value s) :
    Repeats check node := by
  constructor
  · exact value
  · intro s
    exact after_congr mirrors (keeps.value s) s

section Expressions

variable (expected : Option ScalarType) (op : Token)

theorem free_type_congr {first second : List Expr}
    (alike : first.map (Expr.shown .types) = second.map (Expr.shown .types)) :
    freeType first = freeType second := by
  have same : ∀ table, first.all (Expr.isInteger table) = second.all (Expr.isInteger table) := by
    intro table
    have blind := funext (Expr.is_integer_shown .types table)
    change Expr.isInteger _ ∘ Expr.shown .types = Expr.isInteger table at blind
    rw [← blind, ← List.all_map, ← List.all_map, alike]
  unfold freeType
  congr
  funext table
  rw [same]

theorem operand_type_alike {operand operand' : Expr}
    (alike : operand'.shown .types = operand.shown .types) :
    operandType expected op operand' = operandType expected op operand := by
  apply operand_type_congr
  apply free_type_congr
  rw [List.map_singleton, List.map_singleton, alike]

theorem operand_types_alike {left left' right right' : Expr}
    (lefts : left'.shown .types = left.shown .types)
    (rights : right'.shown .types = right.shown .types) :
    operandTypes expected op left' right' = operandTypes expected op left right := by
  apply operand_types_congr
  apply free_type_congr
  simp only [List.map_cons, lefts, rights]

theorem length_checked {args : List Expr} {params : List ScalarType} (s : WalkState) :
    ((arguments params args).value s).length = args.length := by
  have lengths := congrArg List.length ((keeps_arguments params args).value s)
  rwa [List.length_map, List.length_map] at lengths

mutual

theorem repeats_expression : (expected : Option ScalarType) → (expr : Expr) →
    Repeats (expression expected) expr
  | expected, .literal token => by
      apply repeats_of_value (mirrors_expression .types expected) (keeps_expression expected _)
      intro s
      have value : ∀ s, (expression expected (.literal token)).value s = .literal token := by
        intro s
        unfold expression
        split <;> rfl
      rw [value, value]
  | expected, .name token resolved => by
      apply repeats_of_value (mirrors_expression .types expected) (keeps_expression expected _)
      intro s
      simp only [expression, value_bind, value_pure]
      cases (checkName expected token).value s <;> rfl
  | expected, .call token args resolved => by
      apply repeats_of_value (mirrors_expression .types expected) (keeps_expression expected _)
      intro s
      simp only [expression, value_bind, value_pure, length_checked]
      rw [(repeats_arguments _ args).value]
  | expected, .unary op operand => by
      apply repeats_of_value (mirrors_expression .types expected) (keeps_expression expected _)
      intro s
      simp only [expression_unary, value_bind, value_pure]
      rw [operand_type_alike expected op ((keeps_expression _ operand).value _),
        (repeats_expression _ operand).value]
  | expected, .binary op left right resolved => by
      apply repeats_of_value (mirrors_expression .types expected) (keeps_expression expected _)
      intro s
      simp only [expression_binary, value_bind, value_pure]
      -- The types follow from names and literals, which the first run has kept.
      rw [operand_types_alike expected op ((keeps_expression _ left).value _)
          ((keeps_expression _ right).value _),
        (repeats_expression _ left).value, (repeats_expression _ left).after,
        (repeats_expression _ right).value]

theorem repeats_arguments : (params : List ScalarType) → (args : List Expr) →
    Repeats (arguments params) args
  | params, [] => by
      constructor
      · exact fun _ => rfl
      · exact fun _ => rfl
  | params, first :: others => by
      apply repeats_of_value (mirrors_arguments .types params) (keeps_arguments params _)
      intro s
      simp only [arguments, value_bind, value_pure]
      rw [(repeats_expression _ first).value, (repeats_expression _ first).after,
        (repeats_arguments _ others).value]

end

end Expressions

section Commands

theorem value_assignment (node : Assignment) (s : WalkState) :
    (assignment node).value s = { node with
      value := (expression ((checkTarget node.op node.target).value s) node.value).value
        ((checkTarget node.op node.target).after s) } := by
  unfold assignment
  simp only [value_bind]
  split <;> rfl

theorem repeats_assignment (node : Assignment) : Repeats assignment node := by
  apply repeats_of_value (mirrors_assignment .types) (keeps_assignment node)
  intro s
  rw [value_assignment, value_assignment, (repeats_expression _ node.value).value]

theorem value_loop_start (node : Assignment) (s : WalkState) :
    (loopStart node).value s = { node with
      value := (expression (some .integer) node.value).value
        ((checkControl node.op node.target).after s) } := by
  unfold loopStart
  simp only [value_bind]
  split <;> rfl

theorem repeats_loop_start (node : Assignment) : Repeats loopStart node := by
  apply repeats_of_value (mirrors_loop_start .types) (keeps_loop_start node)
  intro s
  rw [value_loop_start, value_loop_start, (repeats_expression _ node.value).value]

theorem repeats_call_command (token : Token) (args : Option (List Expr)) :
    Repeats (callCommand token) args := by
  apply repeats_of_value (mirrors_call_command .types token) (keeps_call_command token args)
  intro s
  cases args with
  | none => rfl
  | some args =>
      simp only [callCommand, value_bind, value_pure, Option.getD_some, length_checked]
      rw [(repeats_arguments _ args).value]

mutual

theorem repeats_command : (node : Command) → Repeats command node
  | .assign node => by
      apply repeats_of_value (mirrors_command .types) (keeps_command _)
      intro s
      simp only [command, value_bind, value_pure]
      rw [(repeats_assignment node).value]
  | .call token args resolved => by
      apply repeats_of_value (mirrors_command .types) (keeps_command _)
      intro s
      simp only [command, value_bind, value_pure]
      rw [(repeats_call_command token args).value]
  | .ifThen keyword condition branch => by
      apply repeats_of_value (mirrors_command .types) (keeps_command _)
      intro s
      simp only [command, value_bind, value_pure]
      rw [(repeats_expression _ condition).value, (repeats_expression _ condition).after,
        (repeats_command branch).value]
  | .ifElse keyword condition branch otherwise => by
      apply repeats_of_value (mirrors_command .types) (keeps_command _)
      intro s
      simp only [command, value_bind, value_pure]
      rw [(repeats_expression _ condition).value, (repeats_expression _ condition).after,
        (repeats_command branch).value, (repeats_command branch).after,
        (repeats_command otherwise).value]
  | .whileDo keyword condition body => by
      apply repeats_of_value (mirrors_command .types) (keeps_command _)
      intro s
      simp only [command, value_bind, value_pure]
      rw [(repeats_expression _ condition).value, (repeats_expression _ condition).after,
        (repeats_command body).value]
  | .forDo keyword start direction bound body => by
      apply repeats_of_value (mirrors_command .types) (keeps_command _)
      intro s
      simp only [command, value_bind, value_pure]
      rw [(repeats_loop_start start).value, (repeats_loop_start start).after,
        (repeats_expression _ bound).value, (repeats_expression _ bound).after,
        (repeats_command body).value]
  | .block opening body => by
      apply repeats_of_value (mirrors_command .types) (keeps_command _)
      intro s
      simp only [command, value_bind, value_pure]
      rw [(repeats_commands body).value]

theorem repeats_commands : (nodes : List Command) → Repeats commands nodes
  | [] => by
      constructor
      · exact fun _ => rfl
      · exact fun _ => rfl
  | first :: others => by
      apply repeats_of_value (mirrors_commands .types) (keeps_commands _)
      intro s
      simp only [commands, value_bind, value_pure]
      rw [(repeats_command first).value, (repeats_command first).after,
        (repeats_commands others).value]

end

end Commands

section Programs

mutual

theorem repeats_procedure : (node : Program) → Repeats procedure node
  | ⟨keyword, name, params, locals, nested, opening, body⟩ => by
      apply repeats_of_value (mirrors_procedure .types) (keeps_procedure _)
      intro s
      simp only [procedure, value_bind, value_pure]
      rw [(repeats_procedures nested).value, (repeats_procedures nested).after,
        (repeats_commands body).value]

theorem repeats_procedures : (nodes : List Program) → Repeats procedures nodes
  | [] => by
      constructor
      · exact fun _ => rfl
      · exact fun _ => rfl
  | first :: others => by
      apply repeats_of_value (mirrors_procedures .types) (keeps_procedures _)
      intro s
      simp only [procedures, value_bind, value_pure]
      rw [(repeats_procedure first).value, (repeats_procedure first).after,
        (repeats_procedures others).value]

end

theorem repeats_program (node : Program) : Repeats program node := by
  apply repeats_of_value (mirrors_program .types) (keeps_program node)
  intro s
  rcases node with ⟨keyword, name, params, locals, nested, opening, body⟩
  simp only [program, value_bind, value_pure]
  rw [(repeats_procedures nested).value, (repeats_procedures nested).after,
    (repeats_commands body).value]

end Programs

end Walk

namespace Analysis

theorem diagnostics_congr {first second : Program} (alike : first.unresolved = second.unresolved) :
    (ofProgram first).diagnostics = (ofProgram second).diagnostics := by
  rw [← Program.shown_types, ← Program.shown_types] at alike
  have states := Walk.after_congr (Walk.mirrors_program .types) alike .start
  exact congrArg (fun s => s.trace.reverse.filterMap WalkEvent.diagnostic?) states

/-- Trees that differ at most in the types they hold get the same diagnostics. The analysed tree
differs from the given one at most in the types it holds; to analyse it again gives the same
diagnostics and the same tree. -/
theorem analysis_is_blind_to_types_and_idempotent :
    (∀ first second : Program, first.unresolved = second.unresolved →
      (ofProgram first).diagnostics = (ofProgram second).diagnostics) ∧
    ∀ program : Program,
      (ofProgram program).program.unresolved = program.unresolved ∧
      (ofProgram (ofProgram program).program).diagnostics = (ofProgram program).diagnostics ∧
      (ofProgram (ofProgram program).program).program = (ofProgram program).program := by
  constructor
  · intro first second alike
    exact diagnostics_congr alike
  · intro program
    have kept := (Walk.keeps_program program).value .start
    rw [Program.shown_types, Program.shown_types] at kept
    have repeated := (Walk.repeats_program program).value .start
    exact ⟨kept, diagnostics_congr kept, repeated⟩

/-- A type that is held by a name without a declaration stays where it is, and does no harm. -/
theorem type_of_undeclared_name_is_ignored :
    ∃ fresh stale : Program, fresh ≠ stale ∧ fresh.unresolved = stale.unresolved ∧
      (ofProgram fresh).program ≠ (ofProgram stale).program ∧
      (ofProgram fresh).diagnostics = (ofProgram stale).diagnostics ∧
      (ofProgram stale).diagnostics.messages =
        ["x was not declared", "Variable 'y' never declared."] := by
  let tree (held : Option ScalarType) : Program :=
    ⟨⟨.programKw, "program", ⟨1, 1, 0⟩⟩, ⟨.ident, "p", ⟨1, 9, 8⟩⟩, none, none, [],
      ⟨.beginKw, "begin", ⟨1, 12, 11⟩⟩,
      [.assign ⟨⟨.assign, ":=", ⟨1, 20, 19⟩⟩, ⟨.ident, "x", ⟨1, 18, 17⟩⟩,
        .name ⟨.ident, "y", ⟨1, 23, 22⟩⟩ held⟩]⟩
  have alike : (tree none).unresolved = (tree (some .boolean)).unresolved := rfl
  have same := analysis_is_blind_to_types_and_idempotent.1 _ _ alike
  have messages : (ofProgram (tree (some .boolean))).diagnostics.messages =
      ["x was not declared", "Variable 'y' never declared."] := by decide +kernel
  have different : tree none ≠ tree (some .boolean) := by
    intro equal
    cases equal
  have apart : (ofProgram (tree none)).program ≠ (ofProgram (tree (some .boolean))).program := by
    intro equal
    cases equal
  exact ⟨_, _, different, alike, apart, same, messages⟩

end Analysis

end TinyPascal
