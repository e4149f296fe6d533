import TinyPascal.Parser.Expression
import TinyPascal.Proofs.Phrase.Rules

/-!
# Phrases of expressions

The phrases follow the rules one by one. Like the rules they are given the
factors they are made of, and `Factor n` holds the factors that are nested less
than `n` deep.
-/

namespace TinyPascal

set_option autoImplicit false

/-- Adds one more operator and operand on the right. -/
def Expr.join (left : Expr) (link : Token × Expr) : Expr := .binary link.1 left link.2 none

def Expr.named (token : Token) : Option (List Expr) → Expr
  | none => .name token none
  | some args => .call token args none

namespace Phrase

def Link (operand : Phrase Expr) (op : Token) : Phrase (Token × Expr) :=
  fun script rest link => link.1 = op ∧ operand script rest link.2

inductive Term (factor : Phrase Expr) : Phrase Expr
  | intro {front back : Script} {rest : List Token} {first : Expr} {links : List (Token × Expr)}
      (head : factor front (back.tokens ++ rest) first)
      (tail : Series Kind.isMultiplicative (Link factor) back rest links) :
      Term factor (front ++ back) rest (links.foldl Expr.join first)

inductive Simple (factor : Phrase Expr) : Phrase Expr
  | unsigned {front back : Script} {rest : List Token} {first : Expr}
      {links : List (Token × Expr)}
      (bare : faces Kind.isSign (front.tokens ++ (back.tokens ++ rest)) = false)
      (head : Term factor front (back.tokens ++ rest) first)
      (tail : Series Kind.isAdditive (Link (Term factor)) back rest links) :
      Simple factor (front ++ back) rest (links.foldl Expr.join first)
  | signed {sign : Token} {front back : Script} {rest : List Token} {first : Expr}
      {links : List (Token × Expr)} (isSign : sign.kind.isSign = true)
      (head : Term factor front (back.tokens ++ rest) first)
      (tail : Series Kind.isAdditive (Link (Term factor)) back rest links) :
      Simple factor (.read sign :: (front ++ back)) rest
        (links.foldl Expr.join (.unary sign first))

inductive Whole (factor : Phrase Expr) : Phrase Expr
  | plain {script : Script} {rest : List Token} {value : Expr}
      (only : Simple factor script rest value) (ended : faces Kind.isRelational rest = false) :
      Whole factor script rest value
  | compared {op : Token} {front back : Script} {rest : List Token} {left right : Expr}
      (before : Simple factor front (op :: (back.tokens ++ rest)) left)
      (relates : op.kind.isRelational = true) (after : Simple factor back rest right) :
      Whole factor (front ++ .read op :: back) rest (.binary op left right none)

inductive Listed {α : Type} (item : Phrase α) : Phrase (List α)
  | intro {front back : Script} {rest : List Token} {first : α} {others : List α}
      (head : item front (back.tokens ++ rest) first)
      (tail : Series (· = .comma) (fun _ => item) back rest others) :
      Listed item (front ++ back) rest (first :: others)

inductive Arguments (expr : Phrase Expr) : Phrase (List Expr)
  | empty {opening closing : Token} {rest : List Token} (opens : opening.kind = .lparen)
      (closes : closing.kind = .rparen) :
      Arguments expr
        [.read opening, Script.warning opening .emptyArguments, .read closing] rest []
  | listed {opening closing : Token} {script : Script} {rest : List Token} {args : List Expr}
      (opens : opening.kind = .lparen)
      (given : faces (· = .rparen) (script.tokens ++ closing :: rest) = false)
      (list : Listed expr script (closing :: rest) args) (closes : closing.kind = .rparen) :
      Arguments expr (.read opening :: (script ++ [.read closing])) rest args

theorem Arguments.not_faces_assign {expr : Phrase Expr} {script : Script} {rest : List Token}
    {args : List Expr} (given : Arguments expr script rest args) :
    faces (· = .assign) (script.tokens ++ rest) = false := by
  cases given with
  | empty opens => simp [opens]
  | listed opens => simp [opens]

def OptionalArguments (expr : Phrase Expr) : Phrase (Option (List Expr)) :=
  fun script rest args =>
    (script = [] ∧ faces (· = .lparen) rest = false ∧ args = none) ∨
      ∃ given, args = some given ∧ Arguments expr script rest given

inductive FactorOf (factor : Phrase Expr) : Phrase Expr
  | literal {token : Token} {rest : List Token} (isLiteral : token.kind.isLiteral = true) :
      FactorOf factor [.read token] rest (.literal token)
  | negation {op : Token} {script : Script} {rest : List Token} {operand : Expr}
      (negates : op.kind = .notOp) (inner : factor script rest operand) :
      FactorOf factor (.read op :: script) rest (.unary op operand)
  | parentheses {opening closing : Token} {script : Script} {rest : List Token} {value : Expr}
      (opens : opening.kind = .lparen) (inner : Whole factor script (closing :: rest) value)
      (closes : closing.kind = .rparen) :
      FactorOf factor (.read opening :: (script ++ [.read closing])) rest (.unary opening value)
  | name {token : Token} {rest : List Token} (isName : token.kind = .ident)
      (bare : faces (· = .lparen) rest = false) :
      FactorOf factor [.read token] rest (.name token none)
  | call {token : Token} {script : Script} {rest : List Token} {args : List Expr}
      (isName : token.kind = .ident) (given : Arguments (Whole factor) script rest args) :
      FactorOf factor (.read token :: script) rest (.call token args none)

def Factor : Nat → Phrase Expr
  | 0 => nothing
  | n + 1 => FactorOf (Factor n)

def Expression (n : Nat) : Phrase Expr := Whole (Factor n)

end Phrase

namespace Rule

open Phrase

variable {n : Nat} {α : Type}

theorem chain_realizes {kinds : Kind → Bool} {operand : Rule n Expr} {phrase : Phrase Expr}
    (noEnd : kinds .eof = false) (realizes : Realizes operand phrase) (first : Expr) :
    Realizes (chain kinds operand first)
      (mapped (List.foldl Expr.join first) (Series kinds (Link phrase))) := by
  have link : ∀ op, Realizes (do return (op, ← operand) : Rule n (Token × Expr)) (Link phrase op) := by
    intro op
    apply (Realizes.map realizes fun right => (op, right)).congr
    rintro script rest ⟨sameOp, right⟩
    constructor
    · rintro ⟨_, read, same⟩
      cases same
      exact ⟨rfl, read⟩
    · rintro ⟨rfl, read⟩
      exact ⟨right, read, rfl⟩
  exact Realizes.map (row_realizes noEnd link) (List.foldl Expr.join first)

theorem term_realizes {factor : Rule n Expr} {phrase : Phrase Expr}
    (realizes : Realizes factor phrase) : Realizes (term factor) (Term phrase) := by
  apply (Realizes.bind realizes fun first => chain_realizes rfl realizes first).congr
  intro script rest value
  constructor
  · rintro ⟨front, back, first, rfl, head, links, tail, rfl⟩
    exact .intro head tail
  · rintro ⟨head, tail⟩
    exact ⟨_, _, _, rfl, head, _, tail, rfl⟩

theorem simple_expr_realizes {factor : Rule n Expr} {phrase : Phrase Expr}
    (realizes : Realizes factor phrase) : Realizes (simpleExpr factor) (Simple phrase) := by
  have operand := term_realizes realizes
  rw [simpleExpr, trying_eq]
  refine (take_bind_realizes rfl
    (fun sign => .bind operand fun first => chain_realizes rfl operand (.unary sign first))
    (.bind operand fun first => chain_realizes rfl operand first)).congr ?_
  intro script rest value
  constructor
  · rintro (⟨sign, _, rfl, isSign, front, back, first, rfl, head, links, tail, rfl⟩ |
      ⟨bare, front, back, first, rfl, head, links, tail, rfl⟩)
    · exact .signed isSign head tail
    · rw [Script.tokens_append, List.append_assoc] at bare
      exact .unsigned bare head tail
  · intro read
    cases read with
    | unsigned bare head tail =>
        rw [← List.append_assoc, ← Script.tokens_append] at bare
        exact .inr ⟨bare, _, _, _, rfl, head, _, tail, rfl⟩
    | signed isSign head tail =>
        exact .inl ⟨_, _, rfl, isSign, _, _, _, rfl, head, _, tail, rfl⟩

theorem expr_realizes {factor : Rule n Expr} {phrase : Phrase Expr}
    (realizes : Realizes factor phrase) : Realizes (expr factor) (Whole phrase) := by
  have operand := simple_expr_realizes realizes
  refine (Realizes.bind operand fun left => take_bind_realizes rfl
    (fun op => .map operand fun right => Expr.binary op left right none) (.pure left)).congr ?_
  intro script rest value
  constructor
  · rintro ⟨front, _, left, rfl, before,
      ⟨op, back, rfl, relates, right, after, rfl⟩ | ⟨ended, rfl, rfl⟩⟩
    · exact .compared before relates after
    · rw [List.append_nil]
      exact .plain before ended
  · intro read
    cases read with
    | plain only ended =>
        exact ⟨_, [], value, (List.append_nil script).symm, only, .inr ⟨ended, rfl, rfl⟩⟩
    | compared before relates after =>
        exact ⟨_, _, _, rfl, before, .inl ⟨_, _, rfl, relates, _, after, rfl⟩⟩

theorem comma_list_realizes {item : Rule n α} {phrase : Phrase α}
    (realizes : Realizes item phrase) : Realizes (commaList item) (Listed phrase) := by
  refine (Realizes.bind realizes fun first =>
    .map (row_realizes rfl fun _ => realizes) fun others => first :: others).congr ?_
  intro script rest value
  constructor
  · rintro ⟨front, back, first, rfl, head, others, tail, rfl⟩
    exact .intro head tail
  · rintro ⟨head, tail⟩
    exact ⟨_, _, _, rfl, head, _, tail, rfl⟩

theorem arguments_realizes {expr : Rule n Expr} {phrase : Phrase Expr}
    (realizes : Realizes expr phrase) : Realizes (arguments expr) (OptionalArguments phrase) := by
  have close : ∀ args : List Expr, Realizes
      (do
        let _ ← expect .rparen .argumentsEnd
        return some args : Rule n (Option (List Expr)))
      (after (· = .rparen) fun _ => silent (some args)) := by
    intro args
    exact expect_bind_realizes (by decide) fun _ => .pure (some args)
  rw [arguments, trying_eq]
  refine Realizes.congr (take_bind_realizes rfl (fun opening => sees_bind_realizes
    (warn_bind_realizes (close [])) (.bind (comma_list_realizes realizes) close))
    (.pure none)) ?_
  intro script rest value
  constructor
  · rintro (⟨opening, _, rfl, opens, ⟨-, _, rfl, closing, _, rfl, closes, rfl, rfl⟩ |
      ⟨given, inner, _, args, rfl, list, closing, _, rfl, closes, rfl, rfl⟩⟩ | ⟨bare, rfl, rfl⟩)
    · exact .inr ⟨[], rfl, .empty (of_decide_eq_true opens) (of_decide_eq_true closes)⟩
    · rw [Script.tokens_append, List.append_assoc] at given
      exact .inr ⟨args, rfl, .listed (of_decide_eq_true opens) given list (of_decide_eq_true closes)⟩
    · exact .inl ⟨rfl, bare, rfl⟩
  · rintro (⟨rfl, bare, rfl⟩ | ⟨args, rfl, given⟩)
    · exact .inr ⟨bare, rfl, rfl⟩
    · cases given with
      | empty opens closes =>
          exact .inl ⟨_, _, rfl, decide_eq_true opens, .inl ⟨decide_eq_true closes, _, rfl, _, _, rfl,
            decide_eq_true closes, rfl, rfl⟩⟩
      | listed opens given list closes =>
          refine .inl ⟨_, _, rfl, decide_eq_true opens, .inr ⟨?_, _, _, _, rfl, list, _, _, rfl,
            decide_eq_true closes, rfl, rfl⟩⟩
          rw [Script.tokens_append, List.append_assoc]
          exact given

theorem named_realizes {expr : Rule n Expr} {phrase : Phrase Expr}
    (realizes : Realizes expr phrase) (token : Token) :
    Realizes (do
        match ← arguments expr with
        | none => return .name token none
        | some args => return .call token args none : Rule n Expr)
      (mapped (Expr.named token) (OptionalArguments phrase)) := by
  have same : (fun args : Option (List Expr) =>
      (match args with
        | none => Pure.pure (.name token none)
        | some args => Pure.pure (.call token args none) : Rule n Expr)) =
      fun args => Pure.pure (Expr.named token args) := by
    funext args
    cases args <;> rfl
  rw [same]
  exact .map (arguments_realizes realizes) (Expr.named token)

theorem factor_realizes (n : Nat) : Realizes (factor n) (Factor n) := by
  induction n with
  | zero => exact .never
  | succ n induction =>
      have inner := expr_realizes induction
      refine Realizes.congr (consuming_realizes rfl (fun token => .pure (Expr.literal token)) <|
        consuming_realizes rfl (fun op => .map induction fun operand => Expr.unary op operand) <|
        consuming_realizes rfl (fun opening => .bind inner fun value =>
          expect_bind_realizes (by decide) fun _ => .pure (Expr.unary opening value)) <|
        consuming_realizes rfl (named_realizes inner) (refuse_quoting_realizes _)) ?_
      intro script rest value
      constructor
      · rintro (⟨token, _, rfl, isLiteral, rfl, rfl⟩ |
          ⟨-, ⟨op, _, rfl, negates, operand, read, rfl⟩ |
          ⟨-, ⟨opening, _, rfl, opens, inside, _, read, rfl, whole, closing, _, rfl, closes, rfl, rfl⟩ |
          ⟨-, ⟨token, _, rfl, isName, _, ⟨rfl, bare, rfl⟩ | ⟨args, rfl, given⟩, rfl⟩ |
          ⟨-, impossible⟩⟩⟩⟩)
        · exact .literal isLiteral
        · exact .negation (of_decide_eq_true negates) read
        · exact .parentheses (of_decide_eq_true opens) whole (of_decide_eq_true closes)
        · exact .name (of_decide_eq_true isName) bare
        · exact .call (of_decide_eq_true isName) given
        · exact impossible.elim
      · intro read
        cases read with
        | literal isLiteral => exact .inl ⟨_, _, rfl, isLiteral, rfl, rfl⟩
        | negation negates inner =>
            exact .inr ⟨by simp [negates, Kind.isLiteral], .inl ⟨_, _, rfl, decide_eq_true negates,
              _, inner, rfl⟩⟩
        | parentheses opens inner closes =>
            exact .inr ⟨by simp [opens, Kind.isLiteral], .inr ⟨by simp [opens],
              .inl ⟨_, _, rfl, decide_eq_true opens, _, _, _, rfl, inner, _, _, rfl,
                decide_eq_true closes, rfl, rfl⟩⟩⟩
        | name isName bare =>
            exact .inr ⟨by simp [isName, Kind.isLiteral], .inr ⟨by simp [isName],
              .inr ⟨by simp [isName], .inl ⟨_, _, rfl, decide_eq_true isName,
                none, .inl ⟨rfl, bare, rfl⟩, rfl⟩⟩⟩⟩
        | call isName given =>
            exact .inr ⟨by simp [isName, Kind.isLiteral], .inr ⟨by simp [isName],
              .inr ⟨by simp [isName], .inl ⟨_, _, rfl, decide_eq_true isName,
                some _, .inr ⟨_, rfl, given⟩, rfl⟩⟩⟩⟩

theorem expression_realizes (n : Nat) : Realizes (expression n) (Expression n) :=
  expr_realizes (factor_realizes n)

end Rule

end TinyPascal
