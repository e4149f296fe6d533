import TinyPascal.Proofs.Typing.Agreement

/-!
# Quotients where an integer is expected

Whether an expression is an integer is decided twice: by the check against an expected integer,
which hands the expectation down through every arithmetic operator, and by the test that the
checker makes of free operands, which calls a quotient a real number. The check reads a quotient
as it reads a product, and this is all that the two disagree about.
-/

namespace TinyPascal

set_option autoImplicit false

/-- A division sign made a multiplication sign; other tokens stay. -/
def Token.multiplied (op : Token) : Token :=
  if op.kind = .divide then { op with kind := .times } else op

namespace Expr

/-- The expression with all quotients made products. -/
def multiplied : Expr → Expr
  | unary op operand => unary op operand.multiplied
  | binary op left right resolved =>
      binary op.multiplied left.multiplied right.multiplied resolved
  | expr => expr

/-- There is a quotient in the expression, outside of argument lists. -/
def hasQuotient : Expr → Bool
  | unary _ operand => operand.hasQuotient
  | binary op left right _ => op.kind = .divide || left.hasQuotient || right.hasQuotient
  | _ => false

end Expr

namespace Token

variable {op : Token}

theorem multiplied_of_ne (notDivision : op.kind ≠ .divide) : op.multiplied = op :=
  if_neg notDivision

theorem is_arithmetic_multiplied : op.multiplied.kind.isArithmetic = op.kind.isArithmetic := by
  unfold multiplied
  split
  · next isDivision =>
    rw [isDivision]
    rfl
  · rfl

theorem multiplied_ne_divide : op.multiplied.kind ≠ .divide := by
  unfold multiplied
  split
  · exact Kind.noConfusion
  · next notDivision => exact notDivision

end Token

namespace Expr

variable {known : Token → Prop} {types : String → Option ScalarType} {table : SymbolTable}

theorem Simple.multiplied {expr : Expr} (simple : expr.Simple known) :
    expr.multiplied.Simple known := by
  induction simple with
  | literal isLiteral => exact .literal isLiteral
  | name isKnown => exact .name isKnown
  | parens isOp _ induction => exact .parens isOp induction
  | negation isOp _ induction => exact .negation isOp induction
  | sign isOp _ induction => exact .sign isOp induction
  | @relation op _ _ _ isOp _ _ first second =>
      have notDivision : op.kind ≠ .divide := by
        intro same
        simp [same, Kind.isRelational] at isOp
      rw [Expr.multiplied, Token.multiplied_of_ne notDivision]
      exact .relation isOp first second
  | @logic op _ _ _ isOp _ _ first second =>
      have notDivision : op.kind ≠ .divide := by
        intro same
        simp [same, Kind.isLogical] at isOp
      rw [Expr.multiplied, Token.multiplied_of_ne notDivision]
      exact .logic isOp first second
  | arithmetic isOp _ _ first second =>
      exact .arithmetic (Token.is_arithmetic_multiplied.trans isOp) first second

/-- What is built from integers stays so when its quotients are made products. -/
theorem over_integers_multiplied {expr : Expr} (simple : expr.Simple known) :
    expr.multiplied.OverIntegers types ↔ expr.OverIntegers types := by
  induction simple with
  | literal | name => exact Iff.rfl
  | parens _ _ induction | negation _ _ induction | sign _ _ induction =>
      exact and_congr_right fun _ => induction
  | relation _ _ _ first second | logic _ _ _ first second | arithmetic _ _ _ first second =>
      simp only [multiplied, OverIntegers, Token.is_arithmetic_multiplied, first, second]

theorem has_quotient_multiplied {expr : Expr} (simple : expr.Simple known) :
    expr.multiplied.hasQuotient = false := by
  induction simple with
  | literal | name => rfl
  | parens _ _ induction | negation _ _ induction | sign _ _ induction => exact induction
  | relation _ _ _ first second | logic _ _ _ first second | arithmetic _ _ _ first second =>
      simp [multiplied, hasQuotient, Token.multiplied_ne_divide, first, second]

theorem no_quotient_of_synth {expr : Expr} (simple : expr.Simple known)
    (integer : expr.synth types = some .integer) : expr.hasQuotient = false := by
  induction simple with
  | literal | name => rfl
  | parens isOp _ induction =>
      rw [synth_parens isOp] at integer
      exact induction integer
  | negation isOp _ _ => simp [synth_negation isOp] at integer
  | sign isOp _ induction =>
      rw [synth_sign isOp, Option.filter_eq_some_iff] at integer
      exact induction integer.1
  | relation isOp _ _ _ _ => exact absurd integer (synth_relation_ne_integer isOp)
  | logic isOp _ _ _ _ => exact absurd integer (synth_logic_ne_integer isOp)
  | arithmetic isOp _ _ first second =>
      rw [synth_arithmetic_eq_integer isOp] at integer
      simp [hasQuotient, integer.1, first integer.2.1, second integer.2.2]

theorem synth_of_over_integers {expr : Expr} (simple : expr.Simple known)
    (integers : expr.OverIntegers types) (noQuotient : expr.hasQuotient = false) :
    expr.synth types = some .integer := by
  induction simple with
  | @literal token _ =>
      have isInteger : token.kind = .intLit := integers
      simp [synth, isInteger, Operand.ofLiteral?, Operand.type]
  | name => exact integers
  | parens isOp _ induction =>
      rw [synth_parens isOp]
      exact induction integers.2 noQuotient
  | negation isOp _ _ => simp [OverIntegers, isOp, Kind.isSign] at integers
  | sign isOp _ induction =>
      rw [synth_sign isOp, Option.filter_eq_some_iff]
      exact ⟨induction integers.2 noQuotient, rfl⟩
  | @relation op _ _ _ isOp _ _ _ _ =>
      have isArithmetic := integers.1
      revert isOp isArithmetic
      cases op.kind <;> simp [Kind.isRelational, Kind.isArithmetic]
  | @logic op _ _ _ isOp _ _ _ _ =>
      have isArithmetic := integers.1
      revert isOp isArithmetic
      cases op.kind <;> simp [Kind.isLogical, Kind.isArithmetic]
  | arithmetic isOp _ _ first second =>
      simp only [hasQuotient, Bool.or_eq_false_iff, decide_eq_false_iff_not] at noQuotient
      rw [synth_arithmetic_eq_integer isOp]
      exact ⟨noQuotient.1.1, first integers.2.1 noQuotient.1.2, second integers.2.2 noQuotient.2⟩

theorem is_integer_iff_over_integers {expr : Expr} (simple : expr.Simple known) :
    expr.isInteger table = true ↔
      expr.OverIntegers table.types ∧ expr.hasQuotient = false := by
  rw [is_integer_iff simple]
  constructor
  · intro integer
    exact ⟨over_integers_of_synth simple integer, no_quotient_of_synth simple integer⟩
  · intro both
    exact synth_of_over_integers simple both.1 both.2

theorem is_integer_multiplied {expr : Expr} (simple : expr.Simple known) :
    expr.multiplied.isInteger table = true ↔ expr.OverIntegers table.types := by
  rw [is_integer_iff_over_integers simple.multiplied, over_integers_multiplied simple]
  exact and_iff_left (has_quotient_multiplied simple)

end Expr

namespace Walk

/-- Where an integer is expected, a quotient counts as a product. Take an expression of a shape
that a text gives, without argument lists, whose names all stand for variables that hold a value.
The check against an expected integer reports nothing exactly if the test for integers accepts
the expression with all its quotients made products. So the test accepts exactly those expressions
without a quotient about which the check reports nothing. -/
theorem integer_check_takes_quotients_as_products (expr : Expr) (s : WalkState)
    (simple : expr.Simple s.table.Holds) :
    (Silent (expression (some .integer) expr) s ↔ expr.multiplied.isInteger s.table = true) ∧
    (expr.isInteger s.table = true ↔
      Silent (expression (some .integer) expr) s ∧ expr.hasQuotient = false) := by
  have sees : s.Sees s.table.Holds s.table.types := ⟨fun _ holds => holds, rfl⟩
  have checked : Silent (expression (some .integer) expr) s ↔ expr.OverIntegers s.table.types :=
    silent_expression simple (some .integer) sees
  constructor
  · rw [checked, Expr.is_integer_multiplied simple]
  · rw [checked, Expr.is_integer_iff_over_integers simple]

/-- Half of an integer variable is taken for an integer and twice the variable is one. -/
theorem half_is_checked_as_double :
    ∃ (half double : Expr) (s : WalkState), half.Simple s.table.Holds ∧
      half.multiplied = double ∧ double.isInteger s.table = true ∧
      Silent (expression (some .integer) half) s := by
  let token : Token := ⟨.ident, "i", ⟨1, 1, 0⟩⟩
  let two : Token := ⟨.intLit, "2", ⟨1, 5, 4⟩⟩
  let s : WalkState := ⟨⟨[("i", .ofParam token .integer)], []⟩, []⟩
  let half : Expr := .binary ⟨.divide, "/", ⟨1, 3, 2⟩⟩ (.name token none) (.literal two) none
  have holds : s.table.Holds token := ⟨.ofParam token .integer, rfl, rfl, rfl⟩
  have simple : half.Simple s.table.Holds := .arithmetic rfl (.name holds) (.literal rfl)
  have accepted : half.multiplied.isInteger s.table = true := by decide +kernel
  have silent := (integer_check_takes_quotients_as_products half s simple).1.mpr accepted
  exact ⟨half, half.multiplied, s, simple, rfl, accepted, silent⟩

/-- The check and the test do not agree on every expression: nothing is reported about
the quotient of two integers, which the test refuses. -/
theorem quotient_escapes_integer_check :
    ¬∀ (expr : Expr) (s : WalkState), expr.Simple s.table.Holds →
      (Silent (expression (some .integer) expr) s ↔ expr.isInteger s.table = true) := by
  intro agree
  let one : Token := ⟨.intLit, "1", ⟨1, 1, 0⟩⟩
  let two : Token := ⟨.intLit, "2", ⟨1, 5, 4⟩⟩
  let s : WalkState := ⟨⟨[], []⟩, []⟩
  let half : Expr := .binary ⟨.divide, "/", ⟨1, 3, 2⟩⟩ (.literal one) (.literal two) none
  have simple : half.Simple s.table.Holds := .arithmetic rfl (.literal rfl) (.literal rfl)
  have silent : Silent (expression (some .integer) half) s := rfl
  have refused : half.isInteger s.table = false := by decide +kernel
  have accepted := (agree half s simple).mp silent
  rw [refused] at accepted
  exact Bool.false_ne_true accepted

end Walk

end TinyPascal
