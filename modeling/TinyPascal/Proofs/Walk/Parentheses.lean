import TinyPascal.Proofs.Walk.Operators
import TinyPascal.Proofs.Walk.Rewriting

/-!
# Parentheses

Parentheses pass on what is expected of them and say nothing about integers, so an analysis does
not notice when all of them are taken away.
-/

namespace TinyPascal

set_option autoImplicit false

namespace Expr

mutual

/-- The expression without any parentheses: every pair of them gives way to what is inside. -/
def stripped : Expr → Expr
  | binary op left right resolved => binary op left.stripped right.stripped resolved
  | unary op operand => if op.kind = .lparen then operand.stripped else unary op operand.stripped
  | name token resolved => name token resolved
  | call token args resolved => call token (allStripped args) resolved
  | literal token => literal token

def allStripped : List Expr → List Expr
  | [] => []
  | first :: others => first.stripped :: allStripped others

end

theorem all_stripped_eq (args : List Expr) : allStripped args = args.map stripped := by
  induction args with
  | nil => rfl
  | cons first others induction => rw [allStripped, List.map_cons, induction]

theorem is_integer_stripped (table : SymbolTable) (expr : Expr) :
    expr.stripped.isInteger table = expr.isInteger table := by
  fun_induction Expr.isInteger table expr with
  | case1 token => rw [stripped, isInteger]
  | case2 token resolved => rw [stripped, isInteger]
  | case3 token args resolved => rw [stripped, isInteger]
  | case4 op operand induction =>
      rw [stripped]
      split
      · next isParen =>
        rw [induction, isParen]
        rfl
      · rw [isInteger, induction]
  | case5 op left right resolved lefts rights => rw [stripped, isInteger, lefts, rights]

end Expr

namespace Program

def stripped (program : Program) : Program := program.rewritten Expr.stripped

end Program

namespace Walk

theorem free_type_stripped (operands : List Expr) :
    freeType (operands.map Expr.stripped) = freeType operands := by
  have blind : ∀ table, Expr.isInteger table ∘ Expr.stripped = Expr.isInteger table := by
    intro table
    funext expr
    exact expr.is_integer_stripped table
  unfold freeType
  congr 1
  funext table
  rw [List.all_map, blind]

theorem operand_type_lparen (expected : Option ScalarType) {op : Token} (operand : Expr)
    (isParen : op.kind = .lparen) : operandType expected op operand = pure expected := by
  rw [operandType, isParen]

mutual

theorem expression_stripped (expected : Option ScalarType) : (expr : Expr) →
    expression expected expr.stripped = Expr.stripped <$> expression expected expr
  | .literal token => by
      rw [Expr.stripped, expression]
      split
      · simp only [map_bind, map_pure, Expr.stripped]
      · rfl
  | .name token resolved => by
      simp only [Expr.stripped, expression, map_bind, map_pure]
  | .call token args resolved => by
      simp only [Expr.stripped, Expr.all_stripped_eq, expression, List.length_map,
        arguments_stripped, bind_map_left, map_bind, map_pure]
  | .unary op operand => by
      by_cases isParen : op.kind = .lparen
      · simp only [Expr.stripped, isParen, if_true, expression_unary,
          operand_type_lparen _ _ isParen, pure_bind, map_bind, map_pure]
        rw [expression_stripped expected operand]
        rfl
      · have free := operand_type_congr expected op (free_type_stripped [operand])
        simp only [Expr.stripped, isParen, if_false, expression_unary, free,
          expression_stripped _ operand, bind_map_left, map_bind, map_pure]
  | .binary op left right resolved => by
      have free := operand_types_congr expected op (free_type_stripped [left, right])
      simp only [Expr.stripped, expression_binary, free, expression_stripped _ left,
        expression_stripped _ right, bind_map_left, map_bind, map_pure]

theorem arguments_stripped (params : List ScalarType) : (args : List Expr) →
    arguments params (args.map Expr.stripped) = List.map Expr.stripped <$> arguments params args
  | [] => rfl
  | first :: others => by
      simp only [List.map_cons, arguments, expression_stripped _ first, arguments_stripped _ others,
        bind_map_left, map_bind, map_pure]

end

theorem unnoticed_stripped : Unnoticed Expr.stripped := ⟨expression_stripped⟩

end Walk

/-- Parentheses are transparent. Taken away wherever they stand, they leave the diagnostics as
they are, and the types are filled in as if they were still there. -/
theorem Analysis.parentheses_are_transparent (program : Program) :
    (ofProgram program.stripped).diagnostics = (ofProgram program).diagnostics ∧
      (ofProgram program).program.stripped = (ofProgram program.stripped).program := by
  unfold Program.stripped
  rw [of_program_rewritten Walk.unnoticed_stripped]
  exact ⟨rfl, rfl⟩

end TinyPascal
