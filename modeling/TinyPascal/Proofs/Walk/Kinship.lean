import TinyPascal.Proofs.Scoping.Resolution
import TinyPascal.Proofs.Scoping.Route
import TinyPascal.Proofs.Tree.Tokens
import TinyPascal.Proofs.Walk.Operators

/-!
# Two walks side by side

Checking a tree comes down to a few moves: a name is looked up, marked or declared, a scope is
opened or closed, something is reported. A kinship is a relation between states that all these
moves keep, as long as they are about tokens and names that it knows. Two walks over the same part
of a tree, started in kindred states, bring back the same tree and end in kindred states.
-/

namespace TinyPascal

set_option autoImplicit false

/-- A relation between the states of two walks. The number tells how many more scopes are open
than at the start. Of a name that is known, both tables tell what it means, and what the innermost
scope knows of it. -/
structure Kinship where
  related : Nat → WalkState → WalkState → Prop
  places : Token → Prop
  names : String → Prop
  meaning : ∀ {depth s t name}, related depth s t → names name →
    (t.table.lookup name).map Entry.meaning = (s.table.lookup name).map Entry.meaning
  inCurrent : ∀ {depth s t name}, related depth s t → names name →
    t.table.lookupInCurrent name = s.table.lookupInCurrent name
  arithmetic : ∀ {depth s t} (op : Token) (type : ScalarType), related depth s t →
    related depth ((Walk.note (.arithmetic op type)).after s)
      ((Walk.note (.arithmetic op type)).after t)
  report : ∀ {depth s t token} (problem : SemanticProblem), related depth s t → places token →
    related depth ((Walk.report token problem).after s) ((Walk.report token problem).after t)
  markUsed : ∀ {depth s t name}, related depth s t → names name →
    related depth ((Walk.markUsed name).after s) ((Walk.markUsed name).after t)
  markInitialized : ∀ {depth s t name}, related depth s t → names name →
    related depth ((Walk.markInitialized name).after s) ((Walk.markInitialized name).after t)
  declare : ∀ {depth s t} {declared : Declared}, related depth s t → places declared.token →
    names declared.name → related depth (declared.walk.after s) (declared.walk.after t)
  enter : ∀ {depth s t}, related depth s t →
    related (depth + 1) (Walk.enterScope.after s) (Walk.enterScope.after t)
  leave : ∀ {depth s t}, related (depth + 1) s t →
    related depth (Walk.leaveScope.after s) (Walk.leaveScope.after t)

theorem Entry.type_congr {found other : Option Entry}
    (same : other.map Entry.meaning = found.map Entry.meaning) :
    other.bind Entry.type? = found.bind Entry.type? := by
  cases found with
  | none =>
      rw [Option.map_none, Option.map_eq_none_iff] at same
      rw [same]
  | some entry =>
      rw [Option.map_some, Option.map_eq_some_iff] at same
      rcases same with ⟨entry', found', meaning⟩
      rw [found', Option.bind_some, Option.bind_some, type?, type?, meaning]

theorem SymbolTable.lookup_of_in_current {table : SymbolTable} {name : String} {entry : Entry}
    (found : table.lookupInCurrent name = some entry) : table.lookup name = some entry := by
  have first : table.current.get? name = some entry := found
  rw [lookup, scopes_eq_cons, List.findSome?_cons, first]

namespace Kinship

open Walk

variable (k : Kinship) {α β : Type} {depth : Nat}

/-- Started in kindred states, both walks bring back the same value and end in kindred states. -/
def Agree (depth : Nat) (walk other : Walk α) : Prop :=
  ∀ s t : WalkState, k.related depth s t →
    other.value t = walk.value s ∧ k.related depth (walk.after s) (other.after t)

variable {k}

section Steps

theorem agree_pure (a : α) : k.Agree depth (pure a) (pure a) := by
  intro s t states
  exact ⟨rfl, states⟩

theorem agree_bind {walk other : Walk α} {next next' : α → Walk β}
    (first : k.Agree depth walk other) (second : ∀ a, k.Agree depth (next a) (next' a)) :
    k.Agree depth (walk >>= next) (other >>= next') := by
  intro s t states
  rcases first s t states with ⟨values, states⟩
  rw [after_bind, after_bind, value_bind, value_bind, values]
  exact second _ _ _ states

theorem agree_map {walk other : Walk α} (f : α → β) (first : k.Agree depth walk other) :
    k.Agree depth (walk >>= fun a => pure (f a)) (other >>= fun a => pure (f a)) :=
  agree_bind first fun _ => agree_pure _

theorem agree_lookup_bind {name : String} {next : Option Entry → Walk β} (known : k.names name)
    (second : ∀ found found', found'.map Entry.meaning = found.map Entry.meaning →
      k.Agree depth (next found) (next found')) :
    k.Agree depth (lookup name >>= next) (lookup name >>= next) := by
  intro s t states
  exact second _ _ (k.meaning states known) s t states

theorem agree_report {token : Token} (placed : k.places token) (problem : SemanticProblem) :
    k.Agree depth (Walk.report token problem) (Walk.report token problem) := by
  intro s t states
  exact ⟨rfl, k.report problem states placed⟩

theorem agree_mark_used {name : String} (known : k.names name) :
    k.Agree depth (Walk.markUsed name) (Walk.markUsed name) := by
  intro s t states
  exact ⟨rfl, k.markUsed states known⟩

theorem agree_mark_assigned {name : String} (known : k.names name) :
    k.Agree depth (markAssigned name) (markAssigned name) := by
  intro s t states
  exact ⟨rfl, k.markUsed (k.markInitialized states known) known⟩

end Steps

section Names

variable {token : Token}

theorem agree_compare (placed : k.places token) (expected : Option ScalarType) (actual : Operand) :
    k.Agree depth (Walk.compare expected actual token)
      (Walk.compare expected actual token) := by
  unfold Walk.compare
  split
  · exact agree_pure _
  · split
    · exact agree_pure _
    · exact agree_report placed _

theorem agree_give_boolean (placed : k.places token) (expected : Option ScalarType) :
    k.Agree depth (giveBoolean expected token) (giveBoolean expected token) := by
  unfold giveBoolean
  split
  · exact agree_pure _
  · exact agree_pure _
  · exact agree_report placed _

theorem is_integer_congr {table other : SymbolTable} : (expr : Expr) →
    (∀ naming ∈ expr.namings, (other.lookup naming.name).map Entry.meaning =
      (table.lookup naming.name).map Entry.meaning) →
    expr.isInteger other = expr.isInteger table
  | .literal token, _ => rfl
  | .name token resolved, same => by
      have type := Entry.type_congr (same _ (List.mem_singleton.mpr rfl))
      simp only [Expr.isInteger]
      exact congrArg (fun found => decide (found = some ScalarType.integer)) type
  | .call token args resolved, _ => rfl
  | .unary op operand, same => by
      rw [Expr.isInteger, Expr.isInteger, is_integer_congr operand same]
  | .binary op left right resolved, same => by
      rw [Expr.namings, List.forall_mem_append] at same
      rw [Expr.isInteger, Expr.isInteger, is_integer_congr left same.1, is_integer_congr right same.2]

theorem agree_free_type {operands : List Expr}
    (known : ∀ operand ∈ operands, ∀ naming ∈ operand.namings, k.names naming.name) :
    k.Agree depth (freeType operands) (freeType operands) := by
  intro s t states
  have integers : operands.all (Expr.isInteger t.table) = operands.all (Expr.isInteger s.table) := by
    rw [Bool.eq_iff_iff, List.all_eq_true, List.all_eq_true]
    apply forall₂_congr
    intro operand member
    rw [is_integer_congr operand fun naming happens =>
      k.meaning states (known operand member naming happens)]
  have value : ∀ s, (freeType operands).value s =
      if operands.all (Expr.isInteger s.table) then .integer else .real := fun _ => rfl
  rw [value, value, integers]
  exact ⟨rfl, states⟩

theorem agree_give_number (placed : k.places token) (expected : Option ScalarType)
    {free : Walk ScalarType} (agree : k.Agree depth free free) :
    k.Agree depth (giveNumber expected token free) (giveNumber expected token free) := by
  unfold giveNumber
  split
  · exact agree_bind (agree_report placed _) fun _ => agree_pure _
  · exact agree_pure _
  · exact agree

/-- Whether a variable is initialized matters only if the innermost scope has it, and of such a
name both tables know the same. -/
theorem uninitialized_congr {s t : WalkState} {name : String} {entry entry' : Entry}
    (states : k.related depth s t) (known : k.names name) (found : s.table.lookup name = some entry)
    (found' : t.table.lookup name = some entry') :
    ((t.table.lookupInCurrent name).isSome && !entry'.initialized) =
      ((s.table.lookupInCurrent name).isSome && !entry.initialized) := by
  have same := k.inCurrent states known
  cases inner : s.table.lookupInCurrent name with
  | none => rw [same, inner]; rfl
  | some here =>
      have first := SymbolTable.lookup_of_in_current inner
      have second := SymbolTable.lookup_of_in_current (same.trans inner)
      rw [found] at first
      rw [found'] at second
      rw [same, inner, Option.some.inj first, Option.some.inj second]

theorem agree_read_name (placed : k.places token) (known : k.names token.lexeme) :
    k.Agree depth (readName token) (readName token) := by
  have used : ∀ entry : Entry, k.Agree depth
      (do Walk.markUsed token.lexeme; pure (some entry.meaning) : Walk (Option Meaning))
      (do Walk.markUsed token.lexeme; pure (some entry.meaning)) :=
    fun _ => agree_bind (agree_mark_used known) fun _ => agree_pure _
  intro s t states
  have meaning := k.meaning states known
  unfold readName
  simp only [value_bind, after_bind, value_lookup, after_lookup]
  cases found : s.table.lookup token.lexeme with
  | none =>
      rw [found, Option.map_none, Option.map_eq_none_iff] at meaning
      rw [meaning]
      exact ⟨rfl, k.report _ states placed⟩
  | some entry =>
      rw [found, Option.map_some, Option.map_eq_some_iff] at meaning
      rcases meaning with ⟨entry', found', meaning⟩
      have early := uninitialized_congr states known found found'
      rw [found']
      dsimp only
      rw [value_bind, value_bind, after_bind, after_bind, value_table, value_table, after_table,
        after_table, early, meaning]
      split
      · exact agree_bind (agree_report placed _) (fun _ => used entry) s t states
      · exact used entry s t states

theorem agree_check_arity (placed : k.places token) (known : k.names token.lexeme) (supplied : Nat)
    (params : List ScalarType) :
    k.Agree depth (checkArity token supplied params) (checkArity token supplied params) := by
  unfold checkArity
  apply agree_bind (agree_mark_used known)
  intro _
  split
  · exact agree_report placed _
  · split
    · exact agree_report placed _
    · exact agree_pure _

theorem agree_check_callee (placed : k.places token) (known : k.names token.lexeme)
    (supplied : Nat) : k.Agree depth (checkCallee token supplied) (checkCallee token supplied) := by
  unfold checkCallee
  apply agree_bind (agree_read_name placed known)
  intro found
  split
  · exact agree_pure _
  · exact agree_bind (agree_report placed _) fun _ =>
      agree_map _ (agree_check_arity placed known _ _)
  · exact agree_bind (agree_report placed _) fun _ => agree_pure _
  · exact agree_bind (agree_report placed _) fun _ => agree_pure _

theorem agree_check_name (placed : k.places token) (known : k.names token.lexeme)
    (expected : Option ScalarType) :
    k.Agree depth (checkName expected token) (checkName expected token) := by
  unfold checkName
  apply agree_bind (agree_read_name placed known)
  intro found
  split
  · exact agree_pure _
  · exact agree_bind (agree_report placed _) fun _ =>
      agree_map _ (agree_check_arity placed known _ _)
  · exact agree_bind (agree_report placed _) fun _ => agree_pure _
  · exact agree_map _ (agree_compare placed _ _)

theorem agree_check_target {op : Token} (placedOp : k.places op) (placed : k.places token)
    (known : k.names token.lexeme) :
    k.Agree depth (checkTarget op token) (checkTarget op token) := by
  unfold checkTarget
  apply agree_lookup_bind known
  intro found found' same
  rw [same]
  split
  · exact agree_pure _
  · exact agree_bind (agree_report placedOp _) fun _ => agree_pure _
  · exact agree_bind (agree_report placedOp _) fun _ => agree_pure _
  · exact agree_bind (agree_report placed _) fun _ => agree_pure _

theorem agree_check_control {op : Token} (placedOp : k.places op) (placed : k.places token)
    (known : k.names token.lexeme) :
    k.Agree depth (checkControl op token) (checkControl op token) := by
  -- The last check is the same for everything that has a meaning.
  have nearby : k.Agree depth
      (do
        if ((← table).lookupInCurrent token.lexeme).isNone then
          Walk.report token .controlNotLocal : Walk Unit)
      (do
        if ((← table).lookupInCurrent token.lexeme).isNone then
          Walk.report token .controlNotLocal) := by
    intro s t states
    rw [value_bind, value_bind, after_bind, after_bind, value_table, value_table, after_table,
      after_table, k.inCurrent states known]
    split
    · exact agree_report placed _ s t states
    · exact agree_pure () s t states
  unfold checkControl
  apply agree_lookup_bind known
  intro found found' same
  rw [same]
  cases found.map Entry.meaning with
  | none => exact agree_report placed _
  | some meaning =>
      cases meaning with
      | procedureOn params => exact agree_bind (agree_report placedOp _) fun _ => nearby
      | programName => exact agree_bind (agree_report placedOp _) fun _ => nearby
      | variableOf type =>
          cases type with
          | integer => exact nearby
          | real => exact agree_bind (agree_report placed _) fun _ => nearby
          | boolean => exact agree_bind (agree_report placed _) fun _ => nearby

theorem agree_check_call (placed : k.places token) (known : k.names token.lexeme) (supplied : Nat) :
    k.Agree depth (checkCall token supplied) (checkCall token supplied) := by
  unfold checkCall
  apply agree_lookup_bind known
  intro found found' same
  rw [same]
  split
  · exact agree_map _ (agree_check_arity placed known _ _)
  · exact agree_bind (agree_report placed _) fun _ => agree_pure _
  · exact agree_bind (agree_report placed _) fun _ => agree_pure _

end Names

section Expressions

theorem agree_operand_type {op : Token} (placed : k.places op) {operand : Expr}
    (known : ∀ naming ∈ operand.namings, k.names naming.name) (expected : Option ScalarType) :
    k.Agree depth (operandType expected op operand) (operandType expected op operand) := by
  have free : k.Agree depth (freeType [operand]) (freeType [operand]) := by
    apply agree_free_type
    rwa [List.forall_mem_singleton]
  unfold operandType
  split
  · exact agree_pure _
  · exact agree_bind (agree_give_boolean placed _) fun _ => agree_pure _
  · exact agree_map _ (agree_give_number placed _ free)

theorem agree_operand_types {op : Token} (placed : k.places op) {left right : Expr}
    (knownLeft : ∀ naming ∈ left.namings, k.names naming.name)
    (knownRight : ∀ naming ∈ right.namings, k.names naming.name) (expected : Option ScalarType) :
    k.Agree depth (operandTypes expected op left right) (operandTypes expected op left right) := by
  have free : k.Agree depth (if op.kind = .divide then pure .real else freeType [left, right])
      (if op.kind = .divide then pure .real else freeType [left, right]) := by
    split
    · exact agree_pure _
    · apply agree_free_type
      rw [List.forall_mem_cons, List.forall_mem_singleton]
      exact ⟨knownLeft, knownRight⟩
  have noted : ∀ type, k.Agree depth (note (.arithmetic op type)) (note (.arithmetic op type)) := by
    intro type s t states
    exact ⟨rfl, k.arithmetic op type states⟩
  unfold operandTypes
  split
  · exact agree_bind (agree_give_boolean placed _) fun _ => agree_pure _
  · apply agree_bind (agree_give_number placed _ free)
    intro type
    exact agree_bind (noted type) fun _ => agree_pure _

mutual

theorem agree_expression : (expr : Expr) → (∀ token ∈ expr.tokens, k.places token) →
    (∀ naming ∈ expr.namings, k.names naming.name) → ∀ expected : Option ScalarType,
    k.Agree depth (expression expected expr) (expression expected expr)
  | .literal token, placed, _, expected => by
      unfold expression
      split
      · exact agree_bind (agree_compare (placed token (List.mem_singleton.mpr rfl)) _ _) fun _ =>
          agree_pure _
      · exact agree_pure _
  | .name token resolved, placed, known, expected => by
      rw [Expr.tokens, List.forall_mem_singleton] at placed
      rw [Expr.namings, List.forall_mem_singleton] at known
      unfold expression
      exact agree_map _ (agree_check_name placed known expected)
  | .call token args resolved, placed, known, expected => by
      rw [Expr.tokens, List.forall_mem_cons] at placed
      rw [Expr.namings, List.forall_mem_cons] at known
      unfold expression
      apply agree_bind (agree_check_callee placed.1 known.1 _)
      intro params
      exact agree_map _ (agree_arguments args placed.2 known.2 params)
  | .unary op operand, placed, known, expected => by
      rw [Expr.tokens, List.forall_mem_cons] at placed
      rw [Expr.namings] at known
      rw [expression_unary]
      apply agree_bind (agree_operand_type placed.1 known expected)
      intro type
      exact agree_map _ (agree_expression operand placed.2 known type)
  | .binary op left right resolved, placed, known, expected => by
      rw [Expr.tokens, List.forall_mem_append, List.forall_mem_cons] at placed
      rw [Expr.namings, List.forall_mem_append] at known
      rw [expression_binary]
      apply agree_bind (agree_operand_types placed.2.1 known.1 known.2 expected)
      intro types
      apply agree_bind (agree_expression left placed.1 known.1 types.2)
      intro first
      exact agree_map _ (agree_expression right placed.2.2 known.2 types.2)

theorem agree_arguments : (args : List Expr) → (∀ token ∈ Expr.tokensAll args, k.places token) →
    (∀ naming ∈ Expr.namingsAll args, k.names naming.name) → ∀ params : List ScalarType,
    k.Agree depth (arguments params args) (arguments params args)
  | [], _, _, params => agree_pure _
  | first :: others, placed, known, params => by
      rw [Expr.tokensAll, List.forall_mem_append] at placed
      rw [Expr.namingsAll, List.forall_mem_append] at known
      unfold arguments
      apply agree_bind (agree_expression first placed.1 known.1 _)
      intro checked
      exact agree_map _ (agree_arguments others placed.2 known.2 _)

end

end Expressions

section Commands

theorem known_of_assignment {how : Token → Mention} {node : Assignment}
    (known : ∀ naming ∈ Command.assignmentNamings how node, k.names naming.name) :
    k.names node.target.lexeme ∧ ∀ naming ∈ node.value.namings, k.names naming.name := by
  rw [Command.assignmentNamings, List.forall_mem_cons, List.forall_mem_append] at known
  exact ⟨known.1, known.2.1⟩

theorem agree_assignment {node : Assignment} (placed : ∀ token ∈ node.tokens, k.places token)
    (known : ∀ naming ∈ Command.assignmentNamings .target node, k.names naming.name) :
    k.Agree depth (assignment node) (assignment node) := by
  rw [Assignment.tokens, List.forall_mem_cons, List.forall_mem_cons] at placed
  rcases known_of_assignment known with ⟨knownTarget, knownValue⟩
  unfold assignment
  apply agree_bind (agree_check_target placed.2.1 placed.1 knownTarget)
  intro type
  apply agree_bind (agree_expression node.value placed.2.2 knownValue type)
  intro value
  dsimp only
  split
  · exact agree_map _ (agree_mark_assigned knownTarget)
  · exact agree_pure _

theorem agree_loop_start {node : Assignment} (placed : ∀ token ∈ node.tokens, k.places token)
    (known : ∀ naming ∈ Command.assignmentNamings .control node, k.names naming.name) :
    k.Agree depth (loopStart node) (loopStart node) := by
  rw [Assignment.tokens, List.forall_mem_cons, List.forall_mem_cons] at placed
  rcases known_of_assignment known with ⟨knownTarget, knownValue⟩
  unfold loopStart
  apply agree_bind (agree_check_control placed.2.1 placed.1 knownTarget)
  intro _
  apply agree_bind (agree_expression node.value placed.2.2 knownValue _)
  intro value
  apply agree_lookup_bind knownTarget
  intro found found' same
  rw [Entry.type_congr same]
  dsimp only
  split
  · exact agree_map _ (agree_mark_assigned knownTarget)
  · exact agree_pure _

theorem agree_call_command {token : Token} {args : Option (List Expr)}
    (placed : ∀ place ∈ token :: Expr.tokensAll (args.getD []), k.places place)
    (known : k.names token.lexeme)
    (knownArgs : ∀ naming ∈ Expr.namingsAll (args.getD []), k.names naming.name) :
    k.Agree depth (callCommand token args) (callCommand token args) := by
  rw [List.forall_mem_cons] at placed
  unfold callCommand
  apply agree_bind (agree_check_call placed.1 known _)
  intro params
  cases args with
  | none => exact agree_pure _
  | some args => exact agree_map _ (agree_arguments args placed.2 knownArgs params)

mutual

theorem agree_command : (node : Command) → (∀ token ∈ node.tokens, k.places token) →
    (∀ naming ∈ node.namings, k.names naming.name) →
    k.Agree depth (command node) (command node)
  | .assign node, placed, known => by
      unfold command
      exact agree_map _ (agree_assignment placed known)
  | .call token args resolved, placed, known => by
      rw [Command.namings, List.forall_mem_cons] at known
      unfold command
      exact agree_map _ (agree_call_command placed known.1 known.2)
  | .ifThen keyword condition branch, placed, known => by
      rw [Command.tokens, List.forall_mem_cons, List.forall_mem_append] at placed
      rw [Command.namings, List.forall_mem_append] at known
      unfold command
      apply agree_bind (agree_expression condition placed.2.1 known.1 _)
      intro condition
      exact agree_map _ (agree_command branch placed.2.2 known.2)
  | .ifElse keyword condition branch otherwise, placed, known => by
      rw [Command.tokens, List.forall_mem_cons, List.forall_mem_append, List.forall_mem_append]
        at placed
      rw [Command.namings, List.forall_mem_append, List.forall_mem_append] at known
      unfold command
      apply agree_bind (agree_expression condition placed.2.1 known.1 _)
      intro condition
      apply agree_bind (agree_command branch placed.2.2.1 known.2.1)
      intro branch
      exact agree_map _ (agree_command otherwise placed.2.2.2 known.2.2)
  | .whileDo keyword condition body, placed, known => by
      rw [Command.tokens, List.forall_mem_cons, List.forall_mem_append] at placed
      rw [Command.namings, List.forall_mem_append] at known
      unfold command
      apply agree_bind (agree_expression condition placed.2.1 known.1 _)
      intro condition
      exact agree_map _ (agree_command body placed.2.2 known.2)
  | .forDo keyword start direction bound body, placed, known => by
      rw [Command.tokens, List.forall_mem_cons, List.forall_mem_append, List.forall_mem_append]
        at placed
      rw [Command.namings, List.forall_mem_append, List.forall_mem_append] at known
      unfold command
      apply agree_bind (agree_loop_start placed.2.1 known.1)
      intro start
      apply agree_bind (agree_expression bound placed.2.2.1 known.2.1 _)
      intro bound
      exact agree_map _ (agree_command body placed.2.2.2 known.2.2)
  | .block opening body, placed, known => by
      rw [Command.tokens, List.forall_mem_cons] at placed
      unfold command
      exact agree_map _ (agree_commands body placed.2 known)

theorem agree_commands : (nodes : List Command) →
    (∀ token ∈ Command.tokensAll nodes, k.places token) →
    (∀ naming ∈ Command.namingsAll nodes, k.names naming.name) →
    k.Agree depth (commands nodes) (commands nodes)
  | [], _, _ => agree_pure _
  | first :: others, placed, known => by
      rw [Command.tokensAll, List.forall_mem_append] at placed
      rw [Command.namingsAll, List.forall_mem_append] at known
      unfold commands
      apply agree_bind (agree_command first placed.1 known.1)
      intro checked
      exact agree_map _ (agree_commands others placed.2 known.2)

end

end Commands

end Kinship

end TinyPascal
