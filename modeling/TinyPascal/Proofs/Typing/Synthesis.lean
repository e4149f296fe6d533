import TinyPascal.Analysis.Expression

/-!
# Types from the leaves up

Typing can be done from the leaves of an expression up, without any expectation. The checker
instead passes the expected type down from the top; `Expr.Fits` says what it has to find out.
-/

namespace TinyPascal

set_option autoImplicit false

def ScalarType.isNumeric : ScalarType → Bool
  | integer | real => true
  | boolean => false

namespace Kind

def isArithmetic : Kind → Bool
  | plus | minus | times | divide => true
  | _ => false

/-- The type that a binary operator makes of operands of two types, if it takes them. -/
def result? (op : Kind) (left right : ScalarType) : Option ScalarType :=
  if op.isRelational then some .boolean
  else if op.isLogical then if left = .boolean ∧ right = .boolean then some .boolean else none
  else if left.isNumeric && right.isNumeric then
    if op = .divide then some .real
    else if left = .integer ∧ right = .integer then some .integer else some .real
  else none

end Kind

namespace Expr

/-- The type of an expression from the leaves up, where `types` gives those of the names. -/
def synth (types : String → Option ScalarType) : Expr → Option ScalarType
  | literal token => (Operand.ofLiteral? token.kind).map Operand.type
  | name token _ => types token.lexeme
  | call .. => none
  | unary op operand =>
      if op.kind = .lparen then operand.synth types
      else if op.kind = .notOp then (operand.synth types).filter fun type => type = .boolean
      else (operand.synth types).filter ScalarType.isNumeric
  | binary op left right _ =>
      (left.synth types).bind fun first =>
        (right.synth types).bind fun second => op.kind.result? first second

/-- The expression is built from integer literals and integer variables by parentheses,
signs and the four arithmetic operators. -/
def OverIntegers (types : String → Option ScalarType) : Expr → Prop
  | literal token => token.kind = .intLit
  | name token _ => types token.lexeme = some .integer
  | call .. => False
  | unary op operand => (op.kind = .lparen ∨ op.kind.isSign = true) ∧ operand.OverIntegers types
  | binary op left right _ =>
      op.kind.isArithmetic = true ∧ left.OverIntegers types ∧ right.OverIntegers types

/-- Expressions of the shapes that a text gives, without argument lists, in which all names
are `known`. -/
inductive Simple (known : Token → Prop) : Expr → Prop
  | literal {token : Token} (isLiteral : token.kind.isLiteral = true) :
      Simple known (.literal token)
  | name {token : Token} {resolved : Option ScalarType} (isKnown : known token) :
      Simple known (.name token resolved)
  | parens {op : Token} {operand : Expr} (isOp : op.kind = .lparen)
      (inside : Simple known operand) : Simple known (.unary op operand)
  | negation {op : Token} {operand : Expr} (isOp : op.kind = .notOp)
      (inside : Simple known operand) : Simple known (.unary op operand)
  | sign {op : Token} {operand : Expr} (isOp : op.kind.isSign = true)
      (inside : Simple known operand) : Simple known (.unary op operand)
  | relation {op : Token} {left right : Expr} {resolved : Option ScalarType}
      (isOp : op.kind.isRelational = true) (first : Simple known left)
      (second : Simple known right) : Simple known (.binary op left right resolved)
  | logic {op : Token} {left right : Expr} {resolved : Option ScalarType}
      (isOp : op.kind.isLogical = true) (first : Simple known left)
      (second : Simple known right) : Simple known (.binary op left right resolved)
  | arithmetic {op : Token} {left right : Expr} {resolved : Option ScalarType}
      (isOp : op.kind.isArithmetic = true) (first : Simple known left)
      (second : Simple known right) : Simple known (.binary op left right resolved)

/-- The expression may stand where a value of type `expected` is wanted, or any value. -/
def Fits (types : String → Option ScalarType) (expr : Expr) : Option ScalarType → Prop
  | none => (expr.synth types).isSome = true
  | some .real => expr.synth types = some .integer ∨ expr.synth types = some .real
  | some .boolean => expr.synth types = some .boolean
  | some .integer => expr.OverIntegers types

end Expr

namespace SymbolTable

/-- The types of the variables that the visible names stand for. -/
def types (table : SymbolTable) (name : String) : Option ScalarType :=
  (table.lookup name).bind Entry.type?

end SymbolTable

namespace Expr

variable {known : Token → Prop} {types : String → Option ScalarType} {op : Token}
  {operand left right : Expr} {resolved : Option ScalarType}

theorem synth_parens (isOp : op.kind = .lparen) :
    (unary op operand).synth types = operand.synth types := by
  simp [synth, isOp]

theorem synth_negation (isOp : op.kind = .notOp) : (unary op operand).synth types =
    (operand.synth types).filter fun type => type = .boolean := by
  simp [synth, isOp]

theorem synth_sign (isOp : op.kind.isSign = true) :
    (unary op operand).synth types = (operand.synth types).filter ScalarType.isNumeric := by
  simp only [synth]
  revert isOp
  cases op.kind <;> simp [Kind.isSign]

theorem synth_binary : (binary op left right resolved).synth types =
    (left.synth types).bind fun first =>
      (right.synth types).bind fun second => op.kind.result? first second := rfl

theorem result?_relation (isOp : op.kind.isRelational = true) (first second : ScalarType) :
    op.kind.result? first second = some .boolean := by
  rw [Kind.result?, if_pos isOp]

theorem result?_logic (isOp : op.kind.isLogical = true) (first second : ScalarType) :
    op.kind.result? first second =
      if first = .boolean ∧ second = .boolean then some .boolean else none := by
  unfold Kind.result?
  revert isOp
  cases op.kind <;> simp [Kind.isLogical, Kind.isRelational]

theorem result?_arithmetic (isOp : op.kind.isArithmetic = true) (first second : ScalarType) :
    op.kind.result? first second =
      if first.isNumeric && second.isNumeric then
        if op.kind ≠ .divide ∧ first = .integer ∧ second = .integer then some .integer
        else some .real
      else none := by
  unfold Kind.result?
  revert isOp
  cases op.kind <;> simp [Kind.isArithmetic, Kind.isLogical, Kind.isRelational]

/-- From the leaves up, only sums, differences and products of integers are integers. -/
theorem synth_arithmetic_eq_integer (isOp : op.kind.isArithmetic = true) :
    (binary op left right resolved).synth types = some .integer ↔
      op.kind ≠ .divide ∧ left.synth types = some .integer ∧ right.synth types = some .integer := by
  rw [synth_binary]
  cases left.synth types with
  | none => simp
  | some first =>
      cases right.synth types with
      | none => simp
      | some second =>
          simp only [Option.bind_some, result?_arithmetic isOp]
          cases first <;> cases second <;> simp [ScalarType.isNumeric]

theorem synth_relation_ne_integer (isOp : op.kind.isRelational = true) :
    (binary op left right resolved).synth types ≠ some .integer := by
  rw [synth_binary]
  cases left.synth types <;> cases right.synth types <;> simp [result?_relation isOp]

theorem synth_logic_ne_integer (isOp : op.kind.isLogical = true) :
    (binary op left right resolved).synth types ≠ some .integer := by
  rw [synth_binary]
  cases left.synth types <;> cases right.synth types <;> simp [result?_logic isOp]

theorem over_integers_of_synth {expr : Expr} (simple : expr.Simple known)
    (integer : expr.synth types = some .integer) : expr.OverIntegers types := by
  induction simple with
  | @literal token isLiteral =>
      simp only [synth] at integer
      simp only [OverIntegers]
      revert integer
      cases token.kind <;> simp [Operand.ofLiteral?, Operand.type]
  | name => exact integer
  | parens isOp _ induction =>
      rw [synth_parens isOp] at integer
      exact ⟨.inl isOp, induction integer⟩
  | negation isOp _ _ => simp [synth_negation isOp] at integer
  | sign isOp _ induction =>
      rw [synth_sign isOp, Option.filter_eq_some_iff] at integer
      exact ⟨.inr isOp, induction integer.1⟩
  | relation isOp _ _ _ _ => exact absurd integer (synth_relation_ne_integer isOp)
  | logic isOp _ _ _ _ => exact absurd integer (synth_logic_ne_integer isOp)
  | arithmetic isOp _ _ first second =>
      rw [synth_arithmetic_eq_integer isOp] at integer
      exact ⟨isOp, first integer.2.1, second integer.2.2⟩

/-- The test for integers that the checker makes of free operands is exact. -/
theorem is_integer_iff {table : SymbolTable} {expr : Expr} (simple : expr.Simple known) :
    expr.isInteger table = true ↔ expr.synth table.types = some .integer := by
  induction simple with
  | @literal token isLiteral =>
      simp only [synth, isInteger]
      revert isLiteral
      cases token.kind <;> simp [Kind.isLiteral, Operand.ofLiteral?, Operand.type]
  | name => simp [isInteger, synth, SymbolTable.types]
  | parens isOp _ induction => simp [isInteger, isOp, synth_parens isOp, induction]
  | negation isOp _ _ => simp [isInteger, isOp, synth_negation isOp]
  | @sign op operand isOp _ induction =>
      have notNot : op.kind ≠ .notOp := by
        intro same
        simp [same, Kind.isSign] at isOp
      rw [synth_sign isOp, Option.filter_eq_some_iff, ← induction]
      simp [isInteger, notNot, ScalarType.isNumeric]
  | @relation op _ _ _ isOp _ _ _ _ =>
      apply iff_of_false _ (synth_relation_ne_integer isOp)
      simp only [isInteger]
      revert isOp
      cases op.kind <;> simp [Kind.isRelational]
  | @logic op _ _ _ isOp _ _ _ _ =>
      apply iff_of_false _ (synth_logic_ne_integer isOp)
      simp only [isInteger]
      revert isOp
      cases op.kind <;> simp [Kind.isLogical]
  | @arithmetic op _ _ _ isOp _ _ first second =>
      rw [synth_arithmetic_eq_integer isOp, ← first, ← second]
      simp only [isInteger]
      revert isOp
      cases op.kind <;> simp [Kind.isArithmetic]

theorem fits_leaf {expr : Expr} {actual : Operand} (typed : expr.synth types = some actual.type)
    (integer : expr.OverIntegers types ↔ actual.type = .integer) (expected : Option ScalarType) :
    expr.Fits types expected ↔ ∀ type, expected = some type → type.accepts actual = true := by
  unfold ScalarType.accepts
  generalize actual.type = found at typed integer
  cases expected with
  | none => simp [Fits, typed]
  | some wanted => cases wanted <;> cases found <;> simp [Fits, typed, integer]

theorem fits_parens (isOp : op.kind = .lparen) (expected : Option ScalarType) :
    (unary op operand).Fits types expected ↔ operand.Fits types expected := by
  unfold Fits
  rw [synth_parens isOp]
  simp [OverIntegers, isOp]

theorem fits_negation (isOp : op.kind = .notOp) (expected : Option ScalarType) :
    (unary op operand).Fits types expected ↔
      (expected = none ∨ expected = some .boolean) ∧ operand.Fits types (some .boolean) := by
  have isNot : ¬(unary op operand).OverIntegers types := by
    simp [OverIntegers, isOp, Kind.isSign]
  cases expected with
  | none =>
      simp only [Fits, synth_negation isOp]
      cases operand.synth types with
      | none => simp
      | some type => cases type <;> simp
  | some type =>
      cases type with
      | integer => simp [Fits, isNot]
      | real => simp [Fits, synth_negation isOp]
      | boolean => simp [Fits, synth_negation isOp]

theorem fits_sign (isOp : op.kind.isSign = true) (simple : operand.Simple known)
    (expected : Option ScalarType) :
    (unary op operand).Fits types expected ↔
      expected ≠ some .boolean ∧ operand.Fits types (some (expected.getD
        (if operand.synth types = some .integer then .integer else .real))) := by
  cases expected with
  | none =>
      simp only [Fits, synth_sign isOp]
      cases typed : operand.synth types with
      | none => simp
      | some type =>
          cases type with
          | integer => simp [over_integers_of_synth simple typed, ScalarType.isNumeric]
          | real => simp [ScalarType.isNumeric]
          | boolean => simp [ScalarType.isNumeric]
  | some type =>
      cases type with
      | integer => simp [Fits, OverIntegers, isOp]
      | real => simp [Fits, synth_sign isOp, ScalarType.isNumeric]
      | boolean => simp [Fits, synth_sign isOp, ScalarType.isNumeric]

theorem fits_relation (isOp : op.kind.isRelational = true) (expected : Option ScalarType) :
    (binary op left right resolved).Fits types expected ↔
      (expected = none ∨ expected = some .boolean) ∧ left.Fits types none ∧ right.Fits types none := by
  have notArithmetic : op.kind.isArithmetic = false := by
    revert isOp
    cases op.kind <;> simp [Kind.isRelational, Kind.isArithmetic]
  cases expected with
  | none =>
      simp only [Fits, synth_binary, result?_relation isOp]
      cases left.synth types <;> cases right.synth types <;> simp
  | some type =>
      cases type with
      | integer => simp [Fits, OverIntegers, notArithmetic]
      | real =>
          simp only [Fits, synth_binary, result?_relation isOp]
          cases left.synth types <;> cases right.synth types <;> simp
      | boolean =>
          simp only [Fits, synth_binary, result?_relation isOp]
          cases left.synth types <;> cases right.synth types <;> simp

theorem fits_logic (isOp : op.kind.isLogical = true) (expected : Option ScalarType) :
    (binary op left right resolved).Fits types expected ↔
      (expected = none ∨ expected = some .boolean) ∧
        left.Fits types (some .boolean) ∧ right.Fits types (some .boolean) := by
  have notArithmetic : op.kind.isArithmetic = false := by
    revert isOp
    cases op.kind <;> simp [Kind.isLogical, Kind.isArithmetic]
  cases expected with
  | none =>
      simp only [Fits, synth_binary, result?_logic isOp]
      cases left.synth types <;> cases right.synth types <;> simp
  | some type =>
      cases type with
      | integer => simp [Fits, OverIntegers, notArithmetic]
      | real =>
          simp only [Fits, synth_binary, result?_logic isOp]
          cases left.synth types <;> cases right.synth types <;> simp
      | boolean =>
          simp only [Fits, synth_binary, result?_logic isOp]
          cases left.synth types <;> cases right.synth types <;> simp

/-- From the leaves up, an arithmetic operator makes a number of two numbers and nothing of
anything else. -/
theorem fits_real_arithmetic (isOp : op.kind.isArithmetic = true) :
    ((binary op left right resolved).Fits types (some .real) ↔
      left.Fits types (some .real) ∧ right.Fits types (some .real)) ∧
    ((binary op left right resolved).Fits types none ↔
      left.Fits types (some .real) ∧ right.Fits types (some .real)) ∧
    ¬(binary op left right resolved).Fits types (some .boolean) := by
  simp only [Fits, synth_binary, result?_arithmetic isOp]
  cases left.synth types with
  | none => simp
  | some first =>
      cases right.synth types with
      | none => simp
      | some second =>
          by_cases quotient : op.kind = .divide <;> cases first <;> cases second <;>
            simp [ScalarType.isNumeric, quotient]

theorem fits_arithmetic (isOp : op.kind.isArithmetic = true) (simpleLeft : left.Simple known)
    (simpleRight : right.Simple known) {expected : Option ScalarType} {type : ScalarType}
    (free : type = expected.getD (if op.kind ≠ .divide ∧ left.synth types = some .integer ∧
      right.synth types = some .integer then .integer else .real)) :
    (binary op left right resolved).Fits types expected ↔
      expected ≠ some .boolean ∧ left.Fits types (some type) ∧ right.Fits types (some type) := by
  subst free
  cases expected with
  | none =>
      by_cases integers : op.kind ≠ .divide ∧ left.synth types = some .integer ∧
          right.synth types = some .integer
      · have first : left.Fits types (some .integer) := over_integers_of_synth simpleLeft integers.2.1
        have second : right.Fits types (some .integer) := over_integers_of_synth simpleRight integers.2.2
        have whole : (binary op left right resolved).Fits types none :=
          (fits_real_arithmetic isOp).2.1.mpr ⟨.inl integers.2.1, .inl integers.2.2⟩
        rw [if_pos integers]
        exact iff_of_true whole ⟨by simp, first, second⟩
      · rw [if_neg integers, (fits_real_arithmetic isOp).2.1]
        simp
  | some type =>
      cases type with
      | integer => simp [Fits, OverIntegers, isOp]
      | real =>
          rw [(fits_real_arithmetic isOp).1]
          simp
      | boolean => simp [(fits_real_arithmetic isOp).2.2]

end Expr

end TinyPascal
