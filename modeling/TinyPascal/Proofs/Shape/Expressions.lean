import TinyPascal.Parser.Expression
import TinyPascal.Proofs.Shape.Basic
import TinyPascal.Proofs.Shape.Steps
import TinyPascal.Proofs.Tree.Tokens

/-!
# What is made of an expression

Each rule makes an expression that fits its level, out of tokens that it has read, in the order in
which it has read them.
-/

namespace TinyPascal

set_option autoImplicit false

namespace Expr

/-- The expression fits the level, and its tokens are among those read. -/
def Made (level : Level) (read : List Token) (_ : List Token) (expr : Expr) : Prop :=
  expr.FitsLevel level ∧ expr.tokens.Sublist read

def linkTokens (link : Token × Expr) : List Token := link.1 :: link.2.tokens

/-- A chain leans to the left, and keeps the tokens of its links in order. -/
theorem made_chain {level operandLevel : Level} {ops : Kind → Bool}
    (joins : ∀ {op : Token} {left right : Expr}, ops op.kind = true → left.FitsLevel level →
      right.FitsLevel operandLevel → (binary op left right none).FitsLevel level)
    {links : List (Token × Expr)} (each : ∀ link ∈ links, ops link.1.kind = true ∧
      link.2.FitsLevel operandLevel) {first : Expr} (fits : first.FitsLevel level) :
    (links.foldl (fun left (op, right) => binary op left right none) first).FitsLevel level ∧
      (links.foldl (fun left (op, right) => binary op left right none) first).tokens =
        first.tokens ++ links.flatMap linkTokens := by
  induction links generalizing first with
  | nil => exact ⟨fits, (List.append_nil _).symm⟩
  | cons link links induction =>
      rcases link with ⟨op, right⟩
      rw [List.forall_mem_cons] at each
      rcases induction each.2 (joins each.1.1 fits each.1.2) with ⟨whole, tokens⟩
      apply And.intro whole
      rw [List.foldl_cons, tokens, Expr.tokens, List.flatMap_cons, linkTokens, List.append_assoc]

end Expr

namespace Rule

open TinyPascal.Expr

variable {n : Nat} {words : List Token}

theorem makes_chain {level operandLevel : Expr.Level} {ops : Kind → Bool} {operand : Rule n Expr}
    {first : Expr} (joins : ∀ {op : Token} {left right : Expr}, ops op.kind = true →
      left.FitsLevel level → right.FitsLevel operandLevel → (binary op left right none).FitsLevel level)
    (inner : ∀ words, Makes words operand (Made operandLevel)) (fits : first.FitsLevel level) :
    Makes words (chain ops operand first) fun read _ made =>
      made.FitsLevel level ∧ made.tokens.Sublist (first.tokens ++ read) := by
  have link : ∀ opening words, ops opening.kind = true →
      Makes words (do return (opening, ← operand)) fun read _ link =>
        (ops link.1.kind = true ∧ link.2.FitsLevel operandLevel) ∧
          (linkTokens link).Sublist (opening :: read) := by
    intro opening words opened
    apply makes_map (inner words)
    intro read _ right made
    exact ⟨⟨opened, made.1⟩, made.2.cons_cons opening⟩
  apply makes_map (makes_row link)
  intro read _ links made
  rcases made_chain joins made.1 fits with ⟨whole, tokens⟩
  apply And.intro whole
  rw [tokens]
  exact made.2.append_left _

section Levels

variable {factor : Rule n Expr} (inner : ∀ words, Makes words factor (Made .factor))

include inner

theorem makes_term : Makes words (term factor) (Made .term) := by
  apply makes_bind (inner words)
  intro read rest first _ made
  apply (makes_chain .product inner (.ofFactor made.1)).imp
  intro more _ whole further
  exact ⟨further.1, further.2.trans (made.2.append_right more)⟩

theorem makes_simple_expr : Makes words (simpleExpr factor) (Made .simple) := by
  have links : ∀ {words read : List Token} {first : Expr}, first.FitsLevel .simple →
      first.tokens.Sublist read → Makes words (chain Kind.isAdditive (term factor) first)
        fun more => Made .simple (read ++ more) := by
    intro words read first fits kept
    apply (makes_chain .sum (fun _ => makes_term inner) fits).imp
    intro more _ whole further
    exact ⟨further.1, further.2.trans (kept.append_right more)⟩
  rw [simpleExpr, trying_eq]
  apply makes_take_bind
  · intro sign rest _ isSign
    apply makes_bind (makes_term inner)
    intro read _ first _ made
    exact links (.signed isSign made.1) (made.2.cons_cons sign)
  · intro _
    apply makes_bind (makes_term inner)
    intro read _ first _ made
    exact links (.ofTerm made.1) made.2

theorem makes_expr : Makes words (expr factor) (Made .whole) := by
  apply makes_bind (makes_simple_expr inner)
  intro read rest left _ first
  apply makes_take_bind
  · intro op rest _ joins
    apply makes_map (makes_simple_expr inner)
    intro more _ right second
    exact ⟨.comparison joins first.1 second.1, first.2.append (second.2.cons_cons op)⟩
  · intro _
    apply makes_pure
    rw [List.append_nil]
    exact ⟨.ofSimple first.1, first.2⟩

end Levels

theorem makes_comma_list {α : Type} {item : Rule n α} {shape : α → Prop} {tokens : α → List Token}
    (each : ∀ words, Makes words item fun read _ made =>
      shape made ∧ (tokens made).Sublist read) :
    Makes words (commaList item) fun read _ items =>
      (∀ made ∈ items, shape made) ∧ (items.flatMap tokens).Sublist read := by
  apply makes_bind (each words)
  intro read rest first _ made
  apply makes_map (makes_separated fun _ => each)
  intro more _ others further
  apply And.intro (List.forall_mem_cons.mpr ⟨made.1, further.1⟩)
  rw [List.flatMap_cons]
  exact made.2.append further.2

theorem makes_arguments {whole : Rule n Expr} (inner : ∀ words, Makes words whole (Made .whole)) :
    Makes words (arguments whole) fun read _ args =>
      (∀ arg ∈ args.getD [], arg.FitsLevel .whole) ∧ (tokensAll (args.getD [])).Sublist read := by
  have closed : ∀ {words read : List Token} {args : List Expr} (opening : Token),
      (∀ arg ∈ args, arg.FitsLevel .whole) → (args.flatMap Expr.tokens).Sublist read →
        Makes words (do let _ ← expect .rparen .argumentsEnd; return some args : Rule n _)
          fun more _ args => (∀ arg ∈ args.getD [], arg.FitsLevel .whole) ∧
            (tokensAll (args.getD [])).Sublist (opening :: (read ++ more)) := by
    intro words read args opening fit kept
    apply makes_map (makes_expect _ _)
    intro more _ closing _
    apply And.intro fit
    rw [Option.getD_some, tokens_all_eq]
    exact (kept.trans (List.sublist_append_left _ _)).cons opening
  rw [arguments, trying_eq]
  apply makes_take_bind
  · intro opening rest _ _
    apply makes_still_bind (Step.still_sees _)
    intro answer
    dsimp only
    split
    · apply makes_still_bind (Step.still_warn _ _)
      intro _
      exact closed opening (List.forall_mem_nil _) (List.nil_sublist [])
    · apply makes_bind (makes_comma_list inner)
      intro read _ args _ made
      exact closed opening made.1 made.2
  · intro _
    exact makes_pure ⟨List.forall_mem_nil _, List.nil_sublist _⟩

theorem makes_factor_of {inner : Rule n Expr} (each : ∀ words, Makes words inner (Made .factor)) :
    Makes words (factorOf inner) (Made .factor) := by
  rw [factorOf, trying_eq]
  apply makes_consuming
  · intro token rest _ isLiteral
    exact makes_pure ⟨.literal isLiteral, .refl _⟩
  apply makes_consuming
  · intro op rest _ isNot
    apply makes_map (each rest)
    intro read _ operand made
    exact ⟨.negation (of_decide_eq_true isNot) made.1, made.2.cons_cons op⟩
  apply makes_consuming
  · intro opening rest _ isOpening
    apply makes_bind (makes_expr each)
    intro read _ enclosed _ made
    apply makes_map (makes_expect _ _)
    intro more _ closing _
    apply And.intro (.parentheses (of_decide_eq_true isOpening) made.1)
    exact (made.2.trans (List.sublist_append_left _ _)).cons_cons opening
  apply makes_consuming
  · intro name rest _ isName
    apply makes_bind (makes_arguments fun _ => makes_expr each)
    intro read _ args _ made
    cases args with
    | none =>
        apply makes_pure
        exact ⟨.name (of_decide_eq_true isName), (List.nil_sublist _).cons_cons name⟩
    | some args =>
        apply makes_pure
        rw [List.append_nil]
        exact ⟨.call (of_decide_eq_true isName) made.1, made.2.cons_cons name⟩
  exact makes_refuse_quoting _

theorem makes_factor (n : Nat) (words : List Token) : Makes words (factor n) (Made .factor) := by
  induction n generalizing words with
  | zero => exact makes_never
  | succ n induction => exact makes_factor_of induction

theorem makes_expression (n : Nat) (words : List Token) :
    Makes words (expression n) (Made .whole) :=
  makes_expr (makes_factor n)

end Rule

end TinyPascal
