import TinyPascal.Proofs.Tree.Expressions
import TinyPascal.Proofs.Walk.Annotation

/-!
# What is true of every expression that comes back

If every checked expression comes back with a property, whatever was expected of it and whatever
was known of names, then all expressions of the tree that a walk brings back have it.
-/

namespace TinyPascal

set_option autoImplicit false

namespace Walk

variable {sort : Expr → Prop}

section Expressions

variable (each : ∀ expected expr, Brings (expression expected expr) sort)

include each

theorem brings_arguments (params : List ScalarType) (args : List Expr) :
    Brings (arguments params args) fun checked => ∀ expr ∈ checked, sort expr := by
  induction args generalizing params with
  | nil => exact brings_pure (List.forall_mem_nil _)
  | cons first others induction =>
      unfold arguments
      apply brings_bind (each _ first)
      intro checked head
      apply brings_bind (induction _)
      intro rest tail
      exact brings_pure (List.forall_mem_cons.mpr ⟨head, tail⟩)

theorem brings_assignment (node : Assignment) :
    Brings (assignment node) fun checked => sort checked.value := by
  unfold assignment
  apply brings_behind
  intro type
  apply brings_bind (each type node.value)
  intro checked holds
  dsimp only
  split
  · exact brings_behind fun _ => brings_pure holds
  · exact brings_pure holds

theorem brings_loop_start (node : Assignment) :
    Brings (loopStart node) fun checked => sort checked.value := by
  unfold loopStart
  apply brings_behind
  intro _
  apply brings_bind (each _ node.value)
  intro checked holds
  apply brings_behind
  intro found
  dsimp only
  split
  · exact brings_behind fun _ => brings_pure holds
  · exact brings_pure holds

theorem brings_call_command (token : Token) (args : Option (List Expr)) :
    Brings (callCommand token args) fun checked => ∀ expr ∈ checked.getD [], sort expr := by
  unfold callCommand
  apply brings_behind
  intro params
  cases args with
  | none => exact brings_pure (List.forall_mem_nil _)
  | some args =>
      apply brings_bind (brings_arguments each params args)
      intro checked all
      exact brings_pure all

end Expressions

mutual

theorem brings_command (each : ∀ expected expr, Brings (expression expected expr) sort) :
    (node : Command) → Brings (command node) fun checked => ∀ expr ∈ checked.exprs, sort expr
  | .assign node => by
      unfold command
      apply brings_bind (brings_assignment each node)
      intro checked holds
      exact brings_pure (List.forall_mem_singleton.mpr holds)
  | .call token args resolved => by
      unfold command
      apply brings_bind (brings_call_command each token args)
      intro checked all
      exact brings_pure all
  | .ifThen keyword condition branch => by
      unfold command
      apply brings_bind (each _ condition)
      intro first holds
      apply brings_bind (brings_command each branch)
      intro second inner
      exact brings_pure (List.forall_mem_cons.mpr ⟨holds, inner⟩)
  | .ifElse keyword condition branch otherwise => by
      unfold command
      apply brings_bind (each _ condition)
      intro first holds
      apply brings_bind (brings_command each branch)
      intro second inner
      apply brings_bind (brings_command each otherwise)
      intro third others
      have both := List.forall_mem_append.mpr ⟨inner, others⟩
      exact brings_pure (List.forall_mem_cons.mpr ⟨holds, both⟩)
  | .whileDo keyword condition body => by
      unfold command
      apply brings_bind (each _ condition)
      intro first holds
      apply brings_bind (brings_command each body)
      intro second inner
      exact brings_pure (List.forall_mem_cons.mpr ⟨holds, inner⟩)
  | .forDo keyword start direction bound body => by
      unfold command
      apply brings_bind (brings_loop_start each start)
      intro first starts
      apply brings_bind (each _ bound)
      intro last bounds
      apply brings_bind (brings_command each body)
      intro second inner
      have behind := List.forall_mem_cons.mpr ⟨bounds, inner⟩
      exact brings_pure (List.forall_mem_cons.mpr ⟨starts, behind⟩)
  | .block opening body => by
      unfold command
      apply brings_bind (brings_commands each body)
      intro checked all
      exact brings_pure all

theorem brings_commands (each : ∀ expected expr, Brings (expression expected expr) sort) :
    (nodes : List Command) →
      Brings (commands nodes) fun checked => ∀ expr ∈ Command.exprsAll checked, sort expr
  | [] => brings_pure (List.forall_mem_nil _)
  | first :: others => by
      unfold commands
      apply brings_bind (brings_command each first)
      intro head heads
      apply brings_bind (brings_commands each others)
      intro tail tails
      exact brings_pure (List.forall_mem_append.mpr ⟨heads, tails⟩)

end

mutual

theorem brings_procedure (each : ∀ expected expr, Brings (expression expected expr) sort) :
    (node : Program) → Brings (procedure node) fun checked => ∀ expr ∈ checked.exprs, sort expr
  | ⟨keyword, name, params, locals, nested, opening, body⟩ => by
      unfold procedure
      apply brings_behind
      intro _
      apply brings_behind
      intro _
      apply brings_behind
      intro _
      apply brings_behind
      intro _
      apply brings_bind (brings_procedures each nested)
      intro inner inners
      apply brings_bind (brings_commands each body)
      intro checked bodies
      apply brings_behind
      intro _
      exact brings_pure (List.forall_mem_append.mpr ⟨inners, bodies⟩)

theorem brings_procedures (each : ∀ expected expr, Brings (expression expected expr) sort) :
    (nodes : List Program) →
      Brings (procedures nodes) fun checked => ∀ expr ∈ Program.exprsAll checked, sort expr
  | [] => brings_pure (List.forall_mem_nil _)
  | first :: others => by
      unfold procedures
      apply brings_bind (brings_procedure each first)
      intro head heads
      apply brings_bind (brings_procedures each others)
      intro tail tails
      exact brings_pure (List.forall_mem_append.mpr ⟨heads, tails⟩)

end

theorem brings_program (each : ∀ expected expr, Brings (expression expected expr) sort)
    (node : Program) : Brings (program node) fun checked => ∀ expr ∈ checked.exprs, sort expr := by
  rcases node with ⟨keyword, name, params, locals, nested, opening, body⟩
  unfold program
  apply brings_behind
  intro table
  apply brings_behind
  intro _
  apply brings_behind
  intro _
  apply brings_bind (brings_procedures each nested)
  intro inner inners
  apply brings_bind (brings_commands each body)
  intro checked bodies
  apply brings_behind
  intro table
  apply brings_behind
  intro _
  exact brings_pure (List.forall_mem_append.mpr ⟨inners, bodies⟩)

end Walk

end TinyPascal
