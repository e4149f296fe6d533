import TinyPascal.Proofs.Walk.Mirror

/-!
# The types an analysis fills in

An analysis reads no type that the tree already holds: two trees that differ only in those are
analysed alike. What it changes in a tree are those types alone, so a second analysis does what the
first one did, and it settles on the same types.
-/

namespace TinyPascal

set_option autoImplicit false

namespace Walk

section Ignored

variable {α γ : Type} {look : α → γ}

/-- As nothing of a state is a type held by the tree, both walks end in the same state. -/
theorem Mirrors.after_eq {walk other : Walk α} (mirrors : Mirrors .types look walk other)
    (s : WalkState) : other.after s = walk.after s := by
  have states := (mirrors s).2
  rwa [Forgetting.shown_types, Forgetting.shown_types] at states

/-- A checker that treats a tree as it treats what is shown of it treats all trees alike that
are shown alike. -/
theorem after_congr {check : α → Walk α} {shown : α → α}
    (mirrors : ∀ node, Mirrors .types look (check node) (check (shown node))) {first second : α}
    (alike : shown first = shown second) (s : WalkState) :
    (check first).after s = (check second).after s := by
  rw [← (mirrors first).after_eq, alike, (mirrors second).after_eq]

end Ignored

section Kept

variable {α β : Type}

/-- Whatever the state, the walk brings back a value of the given sort. -/
structure Brings (walk : Walk α) (sort : α → Prop) : Prop where
  value : ∀ s : WalkState, sort (walk.value s)

theorem brings_pure {a : α} {sort : α → Prop} (holds : sort a) : Brings (pure a) sort :=
  ⟨fun _ => holds⟩

theorem brings_bind {walk : Walk α} {next : α → Walk β} {sort : α → Prop} {sort' : β → Prop}
    (head : Brings walk sort) (tail : ∀ a, sort a → Brings (next a) sort') :
    Brings (walk >>= next) sort' := by
  constructor
  intro s
  exact (tail _ (head.value s)).value (walk.after s)

theorem brings_behind {walk : Walk α} {next : α → Walk β} {sort : β → Prop}
    (tail : ∀ a, Brings (next a) sort) : Brings (walk >>= next) sort := by
  constructor
  intro s
  exact (tail _).value (walk.after s)

theorem brings_cons {γ : Type} {look : α → γ} {walk : Walk α} {walks : Walk (List α)} {node : α}
    {nodes : List α} (head : Brings walk fun checked => look checked = look node)
    (tail : Brings walks fun checked => checked.map look = nodes.map look) :
    Brings
      (do
        let first ← walk
        return first :: (← walks))
      fun checked => checked.map look = (node :: nodes).map look := by
  apply brings_bind head
  intro first same
  apply brings_bind tail
  intro rest sames
  apply brings_pure
  rw [List.map_cons, List.map_cons, same, sames]

mutual

theorem keeps_expression (expected : Option ScalarType) : (expr : Expr) →
    Brings (expression expected expr) fun checked => checked.shown .types = expr.shown .types
  | .literal token => by
      unfold expression
      split
      · exact brings_behind fun _ => brings_pure rfl
      · exact brings_pure rfl
  | .name token resolved => by
      unfold expression
      exact brings_behind fun _ => brings_pure rfl
  | .call token args resolved => by
      unfold expression
      apply brings_behind
      intro params
      apply brings_bind (keeps_arguments params args)
      intro checked same
      apply brings_pure
      rw [Expr.shown_call, Expr.shown_call, same]
  | .unary op operand => by
      rw [expression_unary]
      apply brings_behind
      intro type
      apply brings_bind (keeps_expression type operand)
      intro checked same
      apply brings_pure
      rw [Expr.shown_unary, Expr.shown_unary, same]
  | .binary op left right resolved => by
      rw [expression_binary]
      apply brings_behind
      intro types
      apply brings_bind (keeps_expression types.2 left)
      intro first lefts
      apply brings_bind (keeps_expression types.2 right)
      intro second rights
      apply brings_pure
      rw [Expr.shown_binary, Expr.shown_binary, lefts, rights]
      rfl

theorem keeps_arguments (params : List ScalarType) : (args : List Expr) →
    Brings (arguments params args) fun checked =>
      checked.map (Expr.shown .types) = args.map (Expr.shown .types)
  | [] => brings_pure rfl
  | first :: others => by
      unfold arguments
      exact brings_cons (keeps_expression _ first) (keeps_arguments _ others)

end

theorem keeps_assignment (node : Assignment) :
    Brings (assignment node) fun checked => checked.shown .types = node.shown .types := by
  rcases node with ⟨op, target, value⟩
  unfold assignment
  apply brings_behind
  intro type
  apply brings_bind (keeps_expression type value)
  intro checked same
  have kept := Assignment.shown_looked .types op target same
  dsimp only
  split
  · exact brings_behind fun _ => brings_pure kept
  · exact brings_pure kept

theorem keeps_loop_start (node : Assignment) :
    Brings (loopStart node) fun checked => checked.shown .types = node.shown .types := by
  rcases node with ⟨op, target, value⟩
  unfold loopStart
  apply brings_behind
  intro _
  apply brings_bind (keeps_expression _ value)
  intro checked same
  have kept := Assignment.shown_looked .types op target same
  apply brings_behind
  intro found
  dsimp only
  split
  · exact brings_behind fun _ => brings_pure kept
  · exact brings_pure kept

theorem keeps_call_command (token : Token) (args : Option (List Expr)) :
    Brings (callCommand token args) fun checked =>
      checked.map (List.map (Expr.shown .types)) = args.map (List.map (Expr.shown .types)) := by
  unfold callCommand
  apply brings_behind
  intro params
  cases args with
  | none => exact brings_pure rfl
  | some args =>
      apply brings_bind (keeps_arguments params args)
      intro checked same
      apply brings_pure
      rw [Option.map_some, Option.map_some, same]

mutual

theorem keeps_command : (node : Command) →
    Brings (command node) fun checked => checked.shown .types = node.shown .types
  | .assign node => by
      unfold command
      apply brings_bind (keeps_assignment node)
      intro checked same
      apply brings_pure
      rw [Command.shown_assign, Command.shown_assign, same]
  | .call token args resolved => by
      unfold command
      apply brings_bind (keeps_call_command token args)
      intro checked same
      apply brings_pure
      rw [Command.shown_call, Command.shown_call, same]
  | .ifThen keyword condition branch => by
      unfold command
      apply brings_bind (keeps_expression _ condition)
      intro checked conditions
      apply brings_bind (keeps_command branch)
      intro first branches
      apply brings_pure
      rw [Command.shown_if_then, Command.shown_if_then, conditions, branches]
  | .ifElse keyword condition branch otherwise => by
      unfold command
      apply brings_bind (keeps_expression _ condition)
      intro checked conditions
      apply brings_bind (keeps_command branch)
      intro first branches
      apply brings_bind (keeps_command otherwise)
      intro second others
      apply brings_pure
      rw [Command.shown_if_else, Command.shown_if_else, conditions, branches, others]
  | .whileDo keyword condition body => by
      unfold command
      apply brings_bind (keeps_expression _ condition)
      intro checked conditions
      apply brings_bind (keeps_command body)
      intro repeated bodies
      apply brings_pure
      rw [Command.shown_while_do, Command.shown_while_do, conditions, bodies]
  | .forDo keyword start direction bound body => by
      unfold command
      apply brings_bind (keeps_loop_start start)
      intro first starts
      apply brings_bind (keeps_expression _ bound)
      intro last bounds
      apply brings_bind (keeps_command body)
      intro repeated bodies
      apply brings_pure
      rw [Command.shown_for_do, Command.shown_for_do, starts, bounds, bodies]
  | .block opening body => by
      unfold command
      apply brings_bind (keeps_commands body)
      intro checked same
      apply brings_pure
      rw [Command.shown_block, Command.shown_block, same]

theorem keeps_commands : (nodes : List Command) →
    Brings (commands nodes) fun checked =>
      checked.map (Command.shown .types) = nodes.map (Command.shown .types)
  | [] => brings_pure rfl
  | first :: others => by
      unfold commands
      exact brings_cons (keeps_command first) (keeps_commands others)

end

mutual

theorem keeps_procedure : (node : Program) →
    Brings (procedure node) fun checked => checked.shown .types = node.shown .types
  | ⟨keyword, name, params, locals, nested, opening, body⟩ => by
      unfold procedure
      apply brings_behind
      intro _
      apply brings_behind
      intro _
      apply brings_behind
      intro _
      apply brings_behind
      intro _
      apply brings_bind (keeps_procedures nested)
      intro inner inners
      apply brings_bind (keeps_commands body)
      intro checked bodies
      apply brings_behind
      intro _
      apply brings_pure
      rw [Program.shown_mk, Program.shown_mk, inners, bodies]

theorem keeps_procedures : (nodes : List Program) →
    Brings (procedures nodes) fun checked =>
      checked.map (Program.shown .types) = nodes.map (Program.shown .types)
  | [] => brings_pure rfl
  | first :: others => by
      unfold procedures
      exact brings_cons (keeps_procedure first) (keeps_procedures others)

end

theorem keeps_program (node : Program) :
    Brings (program node) fun checked => checked.shown .types = node.shown .types := by
  rcases node with ⟨keyword, name, params, locals, nested, opening, body⟩
  unfold program
  apply brings_behind
  intro table
  apply brings_behind
  intro _
  apply brings_behind
  intro _
  apply brings_bind (keeps_procedures nested)
  intro inner inners
  apply brings_bind (keeps_commands body)
  intro checked bodies
  apply brings_behind
  intro table
  apply brings_behind
  intro _
  apply brings_pure
  rw [Program.shown_mk, Program.shown_mk, inners, bodies]

end Kept

end Walk

end TinyPascal
