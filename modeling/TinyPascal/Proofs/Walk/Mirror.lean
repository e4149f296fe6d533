import TinyPascal.Proofs.Walk.Forgetting
import TinyPascal.Proofs.Walk.Operators

/-!
# Walks over what a forgetting shows

A walk over what is shown of a tree does what the walk over the tree does: it ends in what is
shown of the table and the trace, and it brings back a tree of which the same is shown.
-/

namespace TinyPascal

set_option autoImplicit false

namespace Walk

/-- Started in what is shown of a state, `other` ends in what is shown of the end of `walk`, and
`look` does not tell their values apart. -/
def Mirrors (f : Forgetting) {α γ : Type} (look : α → γ) (walk other : Walk α) : Prop :=
  ∀ s : WalkState, look (other.value (s.shown f)) = look (walk.value s) ∧
    other.after (s.shown f) = (walk.after s).shown f

variable (f : Forgetting) {α β γ δ : Type}

section Steps

theorem mirrors_pure {look : α → γ} {a a' : α} (same : look a' = look a) :
    Mirrors f look (pure a) (pure a') := by
  intro s
  exact ⟨same, rfl⟩

variable {f}

theorem mirrors_bind {look : α → γ} {look' : β → δ} {walk other : Walk α}
    {next next' : α → Walk β} (head : Mirrors f look walk other)
    (tail : ∀ a a', look a' = look a → Mirrors f look' (next a) (next' a')) :
    Mirrors f look' (walk >>= next) (other >>= next') := by
  intro s
  have first := head s
  have second := tail _ _ first.1 (walk.after s)
  rw [← first.2] at second
  exact second

theorem mirrors_then {look' : β → δ} {walk other : Walk α} {next next' : α → Walk β}
    (head : Mirrors f id walk other) (tail : ∀ a, Mirrors f look' (next a) (next' a)) :
    Mirrors f look' (walk >>= next) (other >>= next') := by
  apply mirrors_bind head
  intro a a' same
  have equal : a' = a := same
  rw [equal]
  exact tail a

theorem mirrors_map {look : α → γ} {look' : β → δ} {walk other : Walk α} {g g' : α → β}
    (head : Mirrors f look walk other) (same : ∀ a a', look a' = look a → look' (g' a') = look' (g a)) :
    Mirrors f look' (walk >>= fun a => pure (g a)) (other >>= fun a => pure (g' a)) :=
  mirrors_bind head fun a a' equal => mirrors_pure f (same a a' equal)

theorem mirrors_cons {look : α → γ} {walk other : Walk α} {walks others : Walk (List α)}
    (head : Mirrors f look walk other) (tail : Mirrors f (List.map look) walks others) :
    Mirrors f (List.map look)
      (do
        let first ← walk
        return first :: (← walks))
      (do
        let first ← other
        return first :: (← others)) := by
  apply mirrors_bind head
  intro first first' firsts
  apply mirrors_map tail
  intro rest rest' rests
  rw [List.map_cons, List.map_cons, firsts, rests]

theorem mirrors_table_bind {look' : β → δ} {next next' : SymbolTable → Walk β}
    (tail : ∀ table, Mirrors f look' (next table) (next' (table.seen f.toView))) :
    Mirrors f look' (table >>= next) (table >>= next') := by
  intro s
  exact tail s.table s

theorem mirrors_lookup_bind {look' : β → δ} {name : String} {next next' : Option Entry → Walk β}
    (tail : ∀ found : Option Entry,
      Mirrors f look' (next found) (next' (found.map (Entry.seen f.toView)))) :
    Mirrors f look' (lookup name >>= next) (lookup name >>= next') := by
  intro s
  have behind := tail (s.table.lookup name) s
  rw [← SymbolTable.lookup_seen] at behind
  exact behind

variable (f)

theorem mirrors_note (event : WalkEvent) :
    Mirrors f id (note event) (note (event.shown f)) := by
  intro s
  exact ⟨rfl, rfl⟩

theorem mirrors_report (token : Token) (problem : SemanticProblem) :
    Mirrors f id (report token problem) (report (f.look token) problem) := by
  have same : WalkEvent.shown f (.reported (finding token problem)) =
      .reported (finding (f.look token) problem) := by
    rw [WalkEvent.shown, finding, f.spot_about]
    rfl
  have noted := mirrors_note f (.reported (finding token problem))
  rw [same] at noted
  exact noted

theorem mirrors_set_table (table : SymbolTable) :
    Mirrors f id (setTable table) (setTable (table.seen f.toView)) := by
  intro s
  exact ⟨rfl, rfl⟩

theorem mirrors_mark_used (name : String) : Mirrors f id (markUsed name) (markUsed name) := by
  unfold markUsed
  apply mirrors_table_bind
  intro table
  rw [SymbolTable.mark_used_seen]
  exact mirrors_set_table f _

theorem mirrors_mark_initialized (name : String) :
    Mirrors f id (markInitialized name) (markInitialized name) := by
  unfold markInitialized
  apply mirrors_table_bind
  intro table
  rw [SymbolTable.mark_initialized_seen]
  exact mirrors_set_table f _

theorem mirrors_mark_assigned (name : String) :
    Mirrors f id (markAssigned name) (markAssigned name) :=
  mirrors_then (mirrors_mark_initialized f name) fun _ => mirrors_mark_used f name

end Steps

section Names

theorem mirrors_compare (expected : Option ScalarType) (actual : Operand) (token : Token) :
    Mirrors f id (compare expected actual token) (compare expected actual (f.look token)) := by
  unfold compare
  cases expected with
  | none => exact mirrors_pure f rfl
  | some type =>
      by_cases fits : type.accepts actual
      · simp only [fits, if_true]
        exact mirrors_pure f rfl
      · simp only [fits]
        exact mirrors_report f _ _

theorem mirrors_give_boolean (expected : Option ScalarType) (op : Token) :
    Mirrors f id (giveBoolean expected op) (giveBoolean expected (f.look op)) := by
  unfold giveBoolean
  split
  · exact mirrors_pure f rfl
  · exact mirrors_pure f rfl
  · exact mirrors_report f _ _

theorem mirrors_free_type (operands : List Expr) :
    Mirrors f id (freeType operands) (freeType (operands.map (Expr.shown f))) := by
  unfold freeType
  apply mirrors_table_bind
  intro table
  have same : Expr.isInteger (table.seen f.toView) ∘ Expr.shown f = Expr.isInteger table :=
    funext (Expr.is_integer_shown f table)
  rw [List.all_map, same]
  exact mirrors_pure f rfl

theorem mirrors_give_number (expected : Option ScalarType) (op : Token) {free free' : Walk ScalarType}
    (mirrors : Mirrors f id free free') :
    Mirrors f id (giveNumber expected op free) (giveNumber expected (f.look op) free') := by
  unfold giveNumber
  split
  · exact mirrors_then (mirrors_report f _ _) fun _ => mirrors_pure f rfl
  · exact mirrors_pure f rfl
  · exact mirrors

theorem mirrors_read_name (token : Token) :
    Mirrors f id (readName token) (readName (f.look token)) := by
  have used : ∀ entry : Entry, Mirrors f id
      (do markUsed token.lexeme; pure (some entry.meaning) : Walk (Option Meaning))
      (do markUsed token.lexeme; pure (some entry.meaning)) :=
    fun _ => mirrors_then (mirrors_mark_used f _) fun _ => mirrors_pure f rfl
  unfold readName
  rw [f.lexeme]
  apply mirrors_lookup_bind
  intro found
  cases found with
  | none => exact mirrors_then (mirrors_report f _ _) fun _ => mirrors_pure f rfl
  | some entry =>
      apply mirrors_table_bind
      intro table
      rw [SymbolTable.lookup_in_current_seen, Option.isSome_map, Entry.initialized_seen]
      split
      · exact mirrors_then (mirrors_report f _ _) fun _ => used entry
      · exact used entry

theorem mirrors_check_arity (token : Token) (supplied : Nat) (params : List ScalarType) :
    Mirrors f id (checkArity token supplied params) (checkArity (f.look token) supplied params) := by
  unfold checkArity
  rw [f.lexeme]
  apply mirrors_then (mirrors_mark_used f _)
  intro _
  split
  · exact mirrors_report f _ _
  · split
    · exact mirrors_report f _ _
    · exact mirrors_pure f rfl

theorem mirrors_check_callee (token : Token) (supplied : Nat) :
    Mirrors f id (checkCallee token supplied) (checkCallee (f.look token) supplied) := by
  unfold checkCallee
  apply mirrors_then (mirrors_read_name f token)
  intro found
  rw [f.lexeme]
  split
  · exact mirrors_pure f rfl
  · exact mirrors_then (mirrors_report f _ _) fun _ =>
      mirrors_then (mirrors_check_arity f _ _ _) fun _ => mirrors_pure f rfl
  · exact mirrors_then (mirrors_report f _ _) fun _ => mirrors_pure f rfl
  · exact mirrors_then (mirrors_report f _ _) fun _ => mirrors_pure f rfl

theorem mirrors_check_name (expected : Option ScalarType) (token : Token) :
    Mirrors f id (checkName expected token) (checkName expected (f.look token)) := by
  unfold checkName
  apply mirrors_then (mirrors_read_name f token)
  intro found
  rw [f.lexeme]
  split
  · exact mirrors_pure f rfl
  · exact mirrors_then (mirrors_report f _ _) fun _ =>
      mirrors_then (mirrors_check_arity f _ _ _) fun _ => mirrors_pure f rfl
  · exact mirrors_then (mirrors_report f _ _) fun _ => mirrors_pure f rfl
  · exact mirrors_then (mirrors_compare f _ _ _) fun _ => mirrors_pure f rfl

theorem mirrors_check_target (op target : Token) :
    Mirrors f id (checkTarget op target) (checkTarget (f.look op) (f.look target)) := by
  unfold checkTarget
  rw [f.lexeme]
  apply mirrors_lookup_bind
  intro found
  rw [Entry.map_meaning_seen]
  split
  · exact mirrors_pure f rfl
  · exact mirrors_then (mirrors_report f _ _) fun _ => mirrors_pure f rfl
  · exact mirrors_then (mirrors_report f _ _) fun _ => mirrors_pure f rfl
  · exact mirrors_then (mirrors_report f _ _) fun _ => mirrors_pure f rfl

theorem mirrors_check_control (op target : Token) :
    Mirrors f id (checkControl op target) (checkControl (f.look op) (f.look target)) := by
  -- The last check is the same for everything that has a meaning.
  have placed : Mirrors f id
      (do
        if ((← table).lookupInCurrent target.lexeme).isNone then
          report target .controlNotLocal : Walk Unit)
      (do
        if ((← table).lookupInCurrent target.lexeme).isNone then
          report (f.look target) .controlNotLocal) := by
    apply mirrors_table_bind
    intro table
    rw [SymbolTable.lookup_in_current_seen, Option.isNone_map]
    split
    · exact mirrors_report f _ _
    · exact mirrors_pure f rfl
  unfold checkControl
  rw [f.lexeme]
  apply mirrors_lookup_bind
  intro found
  rw [Entry.map_meaning_seen]
  cases found.map Entry.meaning with
  | none => exact mirrors_report f _ _
  | some meaning =>
      cases meaning with
      | procedureOn params => exact mirrors_then (mirrors_report f _ _) fun _ => placed
      | programName => exact mirrors_then (mirrors_report f _ _) fun _ => placed
      | variableOf type =>
          cases type with
          | integer => exact placed
          | real => exact mirrors_then (mirrors_report f _ _) fun _ => placed
          | boolean => exact mirrors_then (mirrors_report f _ _) fun _ => placed

theorem mirrors_check_call (token : Token) (supplied : Nat) :
    Mirrors f id (checkCall token supplied) (checkCall (f.look token) supplied) := by
  unfold checkCall
  rw [f.lexeme]
  apply mirrors_lookup_bind
  intro found
  rw [Entry.map_meaning_seen]
  split
  · exact mirrors_then (mirrors_check_arity f _ _ _) fun _ => mirrors_pure f rfl
  · exact mirrors_then (mirrors_report f _ _) fun _ => mirrors_pure f rfl
  · exact mirrors_then (mirrors_report f _ _) fun _ => mirrors_pure f rfl

end Names

section Expressions

theorem mirrors_operand_type (expected : Option ScalarType) (op : Token) (operand : Expr) :
    Mirrors f id (operandType expected op operand)
      (operandType expected (f.look op) (operand.shown f)) := by
  unfold operandType
  rw [f.kind]
  split
  · exact mirrors_pure f rfl
  · exact mirrors_then (mirrors_give_boolean f _ _) fun _ => mirrors_pure f rfl
  · exact mirrors_then (mirrors_give_number f _ _ (mirrors_free_type f [operand])) fun _ =>
      mirrors_pure f rfl

theorem mirrors_operand_types (expected : Option ScalarType) (op : Token) (left right : Expr) :
    Mirrors f id (operandTypes expected op left right)
      (operandTypes expected (f.look op) (left.shown f) (right.shown f)) := by
  have free : Mirrors f id (if op.kind = .divide then pure .real else freeType [left, right])
      (if op.kind = .divide then pure .real else freeType [left.shown f, right.shown f]) := by
    split
    · exact mirrors_pure f rfl
    · exact mirrors_free_type f [left, right]
  unfold operandTypes
  rw [f.kind]
  split
  · exact mirrors_then (mirrors_give_boolean f _ _) fun _ => mirrors_pure f rfl
  · apply mirrors_then (mirrors_give_number f _ _ free)
    intro type
    exact mirrors_then (mirrors_note f _) fun _ => mirrors_pure f rfl

mutual

theorem mirrors_expression (expected : Option ScalarType) : (expr : Expr) →
    Mirrors f (Expr.shown f) (expression expected expr) (expression expected (expr.shown f))
  | .literal token => by
      have same : (Expr.literal (f.look token)).shown f = (Expr.literal token).shown f := by
        rw [Expr.shown_literal, Expr.shown_literal, f.again]
      rw [Expr.shown_literal]
      unfold expression
      rw [f.kind]
      split
      · exact mirrors_then (mirrors_compare f _ _ _) fun _ => mirrors_pure f same
      · exact mirrors_pure f same
  | .name token resolved => by
      rw [Expr.shown_name]
      unfold expression
      apply mirrors_then (mirrors_check_name f _ _)
      intro found
      apply mirrors_pure
      rw [Expr.shown_name, Expr.shown_name, f.again]
      -- Only where no type was found is the one in the tree left as it was.
      cases found with
      | none => exact congrArg _ (f.mark_again resolved)
      | some type => rfl
  | .call token args resolved => by
      rw [Expr.shown_call]
      unfold expression
      rw [List.length_map]
      apply mirrors_then (mirrors_check_callee f _ _)
      intro params
      apply mirrors_map (mirrors_arguments params args)
      intro args args' same
      rw [Expr.shown_call, Expr.shown_call, f.again, f.mark_again, same]
  | .unary op operand => by
      rw [Expr.shown_unary, expression_unary, expression_unary]
      apply mirrors_then (mirrors_operand_type f expected op operand)
      intro type
      apply mirrors_map (mirrors_expression type operand)
      intro operand operand' operands
      rw [Expr.shown_unary, Expr.shown_unary, f.again, operands]
  | .binary op left right resolved => by
      rw [Expr.shown_binary, expression_binary, expression_binary]
      apply mirrors_then (mirrors_operand_types f expected op left right)
      intro types
      apply mirrors_bind (mirrors_expression types.2 left)
      intro left left' lefts
      apply mirrors_map (mirrors_expression types.2 right)
      intro right right' rights
      rw [Expr.shown_binary, Expr.shown_binary, f.again, lefts, rights]

theorem mirrors_arguments (params : List ScalarType) : (args : List Expr) →
    Mirrors f (List.map (Expr.shown f)) (arguments params args)
      (arguments params (args.map (Expr.shown f)))
  | [] => mirrors_pure f rfl
  | first :: others => by
      rw [List.map_cons]
      unfold arguments
      exact mirrors_cons (mirrors_expression _ first) (mirrors_arguments _ others)

end

end Expressions

section Commands

theorem mirrors_assignment (node : Assignment) :
    Mirrors f (Assignment.shown f) (assignment node) (assignment (node.shown f)) := by
  rcases node with ⟨op, target, value⟩
  rw [Assignment.shown_mk]
  unfold assignment
  apply mirrors_then (mirrors_check_target f _ _)
  intro type
  apply mirrors_bind (mirrors_expression f type value)
  intro value value' values
  have same := Assignment.shown_looked f op target values
  simp only [f.lexeme]
  split
  · exact mirrors_then (mirrors_mark_assigned f _) fun _ => mirrors_pure f same
  · exact mirrors_pure f same

theorem mirrors_loop_start (node : Assignment) :
    Mirrors f (Assignment.shown f) (loopStart node) (loopStart (node.shown f)) := by
  rcases node with ⟨op, target, value⟩
  rw [Assignment.shown_mk]
  unfold loopStart
  apply mirrors_then (mirrors_check_control f _ _)
  intro _
  apply mirrors_bind (mirrors_expression f _ value)
  intro value value' values
  have same := Assignment.shown_looked f op target values
  simp only [f.lexeme]
  apply mirrors_lookup_bind
  intro found
  rw [Entry.bind_type_seen]
  split
  · exact mirrors_then (mirrors_mark_assigned f _) fun _ => mirrors_pure f same
  · exact mirrors_pure f same

theorem mirrors_call_command (token : Token) (args : Option (List Expr)) :
    Mirrors f (Option.map (List.map (Expr.shown f))) (callCommand token args)
      (callCommand (f.look token) (args.map (List.map (Expr.shown f)))) := by
  unfold callCommand
  cases args with
  | none =>
      apply mirrors_then (mirrors_check_call f _ _)
      intro params
      exact mirrors_pure f rfl
  | some args =>
      rw [Option.map_some, Option.getD_some, Option.getD_some, List.length_map]
      apply mirrors_then (mirrors_check_call f _ _)
      intro params
      apply mirrors_map (mirrors_arguments f params args)
      intro args args' same
      rw [Option.map_some, Option.map_some, same]

mutual

theorem mirrors_command : (node : Command) →
    Mirrors f (Command.shown f) (command node) (command (node.shown f))
  | .assign node => by
      rw [Command.shown_assign]
      unfold command
      apply mirrors_map (mirrors_assignment f node)
      intro node node' same
      rw [Command.shown_assign, Command.shown_assign, same]
  | .call token args resolved => by
      rw [Command.shown_call]
      unfold command
      apply mirrors_map (mirrors_call_command f token args)
      intro args args' same
      rw [Command.shown_call, Command.shown_call, f.again, f.mark_again, same]
  | .ifThen keyword condition branch => by
      rw [Command.shown_if_then]
      unfold command
      apply mirrors_bind (mirrors_expression f _ condition)
      intro condition condition' conditions
      apply mirrors_map (mirrors_command branch)
      intro branch branch' branches
      rw [Command.shown_if_then, Command.shown_if_then, f.again, conditions, branches]
  | .ifElse keyword condition branch otherwise => by
      rw [Command.shown_if_else]
      unfold command
      apply mirrors_bind (mirrors_expression f _ condition)
      intro condition condition' conditions
      apply mirrors_bind (mirrors_command branch)
      intro branch branch' branches
      apply mirrors_map (mirrors_command otherwise)
      intro otherwise otherwise' others
      rw [Command.shown_if_else, Command.shown_if_else, f.again, conditions, branches, others]
  | .whileDo keyword condition body => by
      rw [Command.shown_while_do]
      unfold command
      apply mirrors_bind (mirrors_expression f _ condition)
      intro condition condition' conditions
      apply mirrors_map (mirrors_command body)
      intro body body' bodies
      rw [Command.shown_while_do, Command.shown_while_do, f.again, conditions, bodies]
  | .forDo keyword start direction bound body => by
      rw [Command.shown_for_do]
      unfold command
      apply mirrors_bind (mirrors_loop_start f start)
      intro start start' starts
      apply mirrors_bind (mirrors_expression f _ bound)
      intro bound bound' bounds
      apply mirrors_map (mirrors_command body)
      intro body body' bodies
      rw [Command.shown_for_do, Command.shown_for_do, f.again, starts, bounds, bodies]
  | .block opening body => by
      rw [Command.shown_block]
      unfold command
      apply mirrors_map (mirrors_commands body)
      intro body body' same
      rw [Command.shown_block, Command.shown_block, f.again, same]

theorem mirrors_commands : (nodes : List Command) →
    Mirrors f (List.map (Command.shown f)) (commands nodes) (commands (nodes.map (Command.shown f)))
  | [] => mirrors_pure f rfl
  | first :: others => by
      rw [List.map_cons]
      unfold commands
      exact mirrors_cons (mirrors_command first) (mirrors_commands others)

end

end Commands

section Programs

theorem mirrors_each {ι : Type} {each each' : ι → Walk Unit} {change : ι → ι}
    (mirrors : ∀ item, Mirrors f id (each item) (each' (change item))) (items : List ι) :
    Mirrors f id (items.forM each) ((items.map change).forM each') := by
  induction items with
  | nil => exact mirrors_pure f rfl
  | cons item items induction => exact mirrors_then (mirrors item) fun _ => induction

theorem mirrors_define (token : Token) (entry : Entry) (taken : SemanticProblem) :
    Mirrors f id (define token entry taken)
      (define (f.look token) (entry.seen f.toView) taken) := by
  unfold define
  rw [f.lexeme]
  apply mirrors_table_bind
  intro table
  rw [SymbolTable.define_seen]
  rcases table.define token.lexeme entry with ⟨fresh, table⟩
  apply mirrors_then (mirrors_set_table f table)
  intro _
  cases fresh with
  | true => exact mirrors_pure f rfl
  | false => exact mirrors_report f _ _

theorem mirrors_report_unused (scope : Scope) :
    Mirrors f id (reportUnused scope) (reportUnused (scope.seen f.toView)) := by
  unfold reportUnused
  rw [Scope.unused_seen]
  apply mirrors_each
  intro pair
  exact mirrors_report f _ _

theorem mirrors_enter_scope : Mirrors f id enterScope enterScope := by
  unfold enterScope
  apply mirrors_table_bind
  intro table
  simp only [SymbolTable.push_seen, SymbolTable.depth_seen]
  exact mirrors_then (mirrors_set_table f _) fun _ => mirrors_note f _

theorem mirrors_leave_scope : Mirrors f id leaveScope leaveScope := by
  unfold leaveScope
  apply mirrors_table_bind
  intro before
  rw [SymbolTable.pop_seen, SymbolTable.depth_seen]
  cases before.pop with
  | error failure => exact mirrors_pure f rfl
  | ok popped =>
      simp only [Except.map, Prod.map_fst, Prod.map_snd, Scope.length_seen]
      apply mirrors_then (mirrors_set_table f _)
      intro _
      exact mirrors_then (mirrors_note f _) fun _ => mirrors_report_unused f _

theorem mirrors_declare {entryOf : Token → ScalarType → Entry}
    (seen : ∀ token type, (entryOf token type).seen f.toView = entryOf (f.look token) type)
    (vars : Option Variables) :
    Mirrors f id (declare entryOf vars) (declare entryOf (vars.map (Variables.seen f.toView))) := by
  unfold declare
  rw [Variables.getd_entries_seen]
  apply mirrors_each
  intro pair
  simp only [Prod.map_fst, Prod.map_snd, f.kind, f.lexeme]
  cases ScalarType.ofKind? pair.2.kind with
  | none => exact mirrors_pure f rfl
  | some type =>
      simp only [← seen]
      exact mirrors_define f _ _ _

theorem param_types_seen (params : Option Variables) :
    paramTypes (params.map (Variables.seen f.toView)) = paramTypes params := by
  unfold paramTypes
  rw [Variables.getd_entries_seen, List.filterMap_map]
  congr
  funext pair
  exact congrArg ScalarType.ofKind? (f.kind pair.2)

theorem mirrors_declare_procedure (name : Token) (params : Option Variables) :
    Mirrors f id (declareProcedure name params)
      (declareProcedure (f.look name) (params.map (Variables.seen f.toView))) := by
  unfold declareProcedure
  rw [f.lexeme, param_types_seen]
  split
  · exact mirrors_pure f rfl
  · exact mirrors_define f name (.ofProcedure name (paramTypes params)) _

mutual

theorem mirrors_procedure : (node : Program) →
    Mirrors f (Program.shown f) (procedure node) (procedure (node.shown f))
  | ⟨keyword, name, params, locals, nested, opening, body⟩ => by
      rw [Program.shown_mk]
      unfold procedure
      apply mirrors_then (mirrors_declare_procedure f name params)
      intro _
      apply mirrors_then (mirrors_enter_scope f)
      intro _
      apply mirrors_then (mirrors_declare f (fun _ _ => rfl) params)
      intro _
      apply mirrors_then (mirrors_declare f (fun _ _ => rfl) locals)
      intro _
      apply mirrors_bind (mirrors_procedures nested)
      intro nested nested' inner
      apply mirrors_bind (mirrors_commands f body)
      intro body body' bodies
      apply mirrors_then (mirrors_leave_scope f)
      intro _
      exact mirrors_pure f (Program.shown_looked f keyword name params locals opening inner bodies)

theorem mirrors_procedures : (nodes : List Program) →
    Mirrors f (List.map (Program.shown f)) (procedures nodes)
      (procedures (nodes.map (Program.shown f)))
  | [] => mirrors_pure f rfl
  | first :: others => by
      rw [List.map_cons]
      unfold procedures
      exact mirrors_cons (mirrors_procedure first) (mirrors_procedures others)

end

theorem mirrors_program (node : Program) :
    Mirrors f (Program.shown f) (program node) (program (node.shown f)) := by
  rcases node with ⟨keyword, name, params, locals, nested, opening, body⟩
  rw [Program.shown_mk]
  unfold program
  apply mirrors_table_bind
  intro table
  simp only [f.lexeme]
  have entry : Entry.ofProgram (f.look name) = (Entry.ofProgram name).seen f.toView := rfl
  rw [entry, SymbolTable.define_seen]
  rcases table.define name.lexeme (Entry.ofProgram name) with ⟨fresh, table⟩
  apply mirrors_then (mirrors_set_table f table)
  intro _
  apply mirrors_then (mirrors_declare f (fun _ _ => rfl) locals)
  intro _
  apply mirrors_bind (mirrors_procedures f nested)
  intro nested nested' inner
  apply mirrors_bind (mirrors_commands f body)
  intro body body' bodies
  apply mirrors_table_bind
  intro table
  apply mirrors_then (mirrors_report_unused f table.global)
  intro _
  exact mirrors_pure f (Program.shown_looked f keyword name params locals opening inner bodies)

end Programs

end Walk

namespace Analysis

/-- Of trees that are shown alike, the analyses are shown alike. -/
theorem alike_of_shown (f : Forgetting) {first second : Program}
    (alike : first.shown f = second.shown f) :
    (ofProgram first).program.shown f = (ofProgram second).program.shown f ∧
      (ofProgram first).events.map (WalkEvent.shown f) =
        (ofProgram second).events.map (WalkEvent.shown f) := by
  have one := Walk.mirrors_program f first .start
  have two := Walk.mirrors_program f second .start
  rw [WalkState.shown_start] at one two
  rw [alike] at one
  have states := one.2.symm.trans two.2
  have traces := congrArg (fun s => s.trace.reverse) states
  constructor
  · exact one.1.symm.trans two.1
  · change ((Walk.program first).after .start).trace.reverse.map (WalkEvent.shown f) =
      ((Walk.program second).after .start).trace.reverse.map (WalkEvent.shown f)
    rw [List.map_reverse, List.map_reverse]
    exact traces

end Analysis

end TinyPascal
