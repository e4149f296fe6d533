import TinyPascal.Proofs.Tree.Expressions
import TinyPascal.Proofs.Walk.Basic

/-!
# Rewriting a tree before or after the walk

A change of expressions that the checker of expressions does not notice is not noticed by the
whole walk. It meets the same tables and notes the same events, and it does not matter whether
the tree is rewritten before the walk or behind it.
-/

namespace TinyPascal

set_option autoImplicit false

namespace Walk

/-- Checking an expression and changing it may change places. -/
structure Unnoticed (change : Expr → Expr) : Prop where
  expression : ∀ expected expr,
    expression expected (change expr) = change <$> expression expected expr

namespace Unnoticed

variable {change : Expr → Expr}

theorem arguments (unnoticed : Unnoticed change) (params : List ScalarType) (args : List Expr) :
    Walk.arguments params (args.map change) = List.map change <$> Walk.arguments params args := by
  induction args generalizing params with
  | nil => rfl
  | cons first others induction =>
      simp only [List.map_cons, Walk.arguments, unnoticed.expression, induction, bind_map_left,
        map_bind, map_pure]

theorem assignment (unnoticed : Unnoticed change) (node : Assignment) :
    Walk.assignment (node.rewritten change) =
      Assignment.rewritten change <$> Walk.assignment node := by
  unfold Walk.assignment Assignment.rewritten
  simp only [unnoticed.expression, bind_map_left, map_bind]
  congr 1
  funext type
  congr 1
  funext value
  split
  · simp only [map_bind, map_pure]
  · simp only [map_pure]

theorem loop_start (unnoticed : Unnoticed change) (node : Assignment) :
    Walk.loopStart (node.rewritten change) =
      Assignment.rewritten change <$> Walk.loopStart node := by
  unfold Walk.loopStart Assignment.rewritten
  simp only [unnoticed.expression, bind_map_left, map_bind]
  congr 1
  funext _
  congr 1
  funext value
  congr 1
  funext found
  split
  · simp only [map_bind, map_pure]
  · simp only [map_pure]

theorem call_command (unnoticed : Unnoticed change) (token : Token)
    (args : Option (List Expr)) :
    Walk.callCommand token (args.map (List.map change)) =
      Option.map (List.map change) <$> Walk.callCommand token args := by
  cases args with
  | none => simp only [Walk.callCommand, Option.map_none, map_bind, map_pure]
  | some args =>
      simp only [Walk.callCommand, Option.map_some, Option.getD_some, List.length_map,
        unnoticed.arguments, bind_map_left, map_bind, map_pure]

mutual

theorem command (unnoticed : Unnoticed change) : (node : Command) →
    Walk.command (node.rewritten change) = Command.rewritten change <$> Walk.command node
  | .assign node => by
      simp only [Walk.command, Command.rewritten, unnoticed.assignment, bind_map_left, map_bind,
        map_pure]
  | .call token args resolved => by
      simp only [Walk.command, Command.rewritten, unnoticed.call_command, bind_map_left, map_bind,
        map_pure]
  | .ifThen keyword condition branch => by
      simp only [Walk.command, Command.rewritten, unnoticed.expression, unnoticed.command branch,
        bind_map_left, map_bind, map_pure]
  | .ifElse keyword condition branch otherwise => by
      simp only [Walk.command, Command.rewritten, unnoticed.expression, unnoticed.command branch,
        unnoticed.command otherwise, bind_map_left, map_bind, map_pure]
  | .whileDo keyword condition body => by
      simp only [Walk.command, Command.rewritten, unnoticed.expression, unnoticed.command body,
        bind_map_left, map_bind, map_pure]
  | .forDo keyword start direction bound body => by
      simp only [Walk.command, Command.rewritten, unnoticed.loop_start, unnoticed.expression,
        unnoticed.command body, bind_map_left, map_bind, map_pure]
  | .block opening body => by
      simp only [Walk.command, Command.rewritten, Command.all_rewritten_eq,
        unnoticed.commands body, bind_map_left, map_bind, map_pure]

theorem commands (unnoticed : Unnoticed change) : (nodes : List Command) →
    Walk.commands (nodes.map (Command.rewritten change)) =
      List.map (Command.rewritten change) <$> Walk.commands nodes
  | [] => rfl
  | first :: others => by
      simp only [List.map_cons, Walk.commands, unnoticed.command first, unnoticed.commands others,
        bind_map_left, map_bind, map_pure]

end

mutual

theorem procedure (unnoticed : Unnoticed change) : (node : Program) →
    Walk.procedure (node.rewritten change) = Program.rewritten change <$> Walk.procedure node
  | ⟨keyword, name, params, locals, nested, opening, body⟩ => by
      simp only [Walk.procedure, Program.rewritten, Program.all_rewritten_eq,
        unnoticed.procedures nested, unnoticed.commands, bind_map_left, map_bind, map_pure]

theorem procedures (unnoticed : Unnoticed change) : (nodes : List Program) →
    Walk.procedures (nodes.map (Program.rewritten change)) =
      List.map (Program.rewritten change) <$> Walk.procedures nodes
  | [] => rfl
  | first :: others => by
      simp only [List.map_cons, Walk.procedures, unnoticed.procedure first,
        unnoticed.procedures others, bind_map_left, map_bind, map_pure]

end

theorem program (unnoticed : Unnoticed change) (node : Program) :
    Walk.program (node.rewritten change) = Program.rewritten change <$> Walk.program node := by
  rcases node with ⟨keyword, name, params, locals, nested, opening, body⟩
  simp only [Walk.program, Program.rewritten, Program.all_rewritten_eq, unnoticed.procedures,
    unnoticed.commands, bind_map_left, map_bind, map_pure]

end Unnoticed

end Walk

theorem Analysis.of_program_rewritten {change : Expr → Expr} (unnoticed : Walk.Unnoticed change)
    (program : Program) :
    ofProgram (program.rewritten change) =
      ⟨(ofProgram program).program.rewritten change, (ofProgram program).events⟩ := by
  unfold ofProgram
  rw [unnoticed.program]
  rfl

end TinyPascal
