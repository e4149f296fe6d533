import TinyPascal.Proofs.Walk.Checked

/-!
# The types of operators

A walk reaches every binary operator of a tree, and none comes back without a type. An arithmetic
operator passes its type on to its operands; signs and parentheses hand it down unchanged, and the
arithmetic operator behind them takes it over.
-/

namespace TinyPascal

set_option autoImplicit false

/-- Operators whose result is a truth value. -/
def Kind.isTruth (kind : Kind) : Bool := kind.isRelational || kind.isLogical

namespace Expr

/-- The expression behind any number of signs and parentheses. -/
def unsigned : Expr → Expr
  | unary op operand =>
      if op.kind = .lparen || op.kind.isSign then operand.unsigned else unary op operand
  | expr => expr

/-- If an arithmetic operator stands behind signs and parentheses, it is of this type. -/
def Carries (type : Option ScalarType) (expr : Expr) : Prop :=
  ∀ op left right resolved, expr.unsigned = binary op left right resolved →
    op.kind.isTruth = false → resolved = type

/-- A binary operator has the type it should have, and so have the arithmetic operators that
take their type from it. -/
structure IsSettled (op : Token) (left right : Expr) (resolved : Option ScalarType) : Prop where
  truth : op.kind.isTruth = true → resolved = some .boolean
  number : op.kind.isTruth = false → resolved = some .integer ∨ resolved = some .real
  left : op.kind.isTruth = false → left.Carries resolved
  right : op.kind.isTruth = false → right.Carries resolved

def Settled : Expr → Prop
  | binary op left right resolved => IsSettled op left right resolved
  | _ => True

/-- If a number is expected, the expression hands it down to the operator it stands for. -/
def Heeds (expected : Option ScalarType) (expr : Expr) : Prop :=
  ∀ type, expected = some type → type ≠ .boolean → expr.Carries (some type)

theorem carries_of_unsigned {expr : Expr} (alone : expr.unsigned = expr)
    (noOperator : ∀ op left right resolved, expr ≠ binary op left right resolved)
    (type : Option ScalarType) : expr.Carries type := by
  intro op left right resolved same
  rw [alone] at same
  exact absurd same (noOperator _ _ _ _)

theorem heeds_of_unsigned {expr : Expr} {expected : Option ScalarType} (alone : expr.unsigned = expr)
    (noOperator : ∀ op left right resolved, expr ≠ binary op left right resolved) :
    expr.Heeds expected := by
  intro type _ _
  exact carries_of_unsigned alone noOperator _

theorem carries_unary {op : Token} {operand : Expr} {type : Option ScalarType}
    (inner : (op.kind = .lparen || op.kind.isSign) = true → operand.Carries type) :
    (unary op operand).Carries type := by
  by_cases passes : (op.kind = .lparen || op.kind.isSign) = true
  · intro inside left right resolved same
    rw [unsigned, if_pos passes] at same
    exact inner passes inside left right resolved same
  · have alone : (unary op operand).unsigned = unary op operand := by rw [unsigned, if_neg passes]
    exact carries_of_unsigned alone nofun type

theorem carries_binary {op : Token} {left right : Expr} {resolved type : Option ScalarType}
    (same : op.kind.isTruth = false → resolved = type) :
    (binary op left right resolved).Carries type := by
  intro _ _ _ _ found number
  cases found
  exact same number

theorem is_settled_of_heeds {op : Token} {left right : Expr} {type : ScalarType}
    {passed : Option ScalarType} (truth : op.kind.isTruth = true → type = .boolean)
    (number : op.kind.isTruth = false → type ≠ .boolean ∧ passed = some type)
    (lefts : left.Heeds passed) (rights : right.Heeds passed) :
    IsSettled op left right (some type) where
  truth isTruth := congrArg some (truth isTruth)
  number isNumber := by
    cases type with
    | integer => exact .inl rfl
    | real => exact .inr rfl
    | boolean => exact absurd rfl (number isNumber).1
  left isNumber := lefts _ (number isNumber).2 (number isNumber).1
  right isNumber := rights _ (number isNumber).2 (number isNumber).1

end Expr

namespace Walk

variable {expected : Option ScalarType} {op : Token}

theorem brings_free_type (operands : List Expr) :
    Brings (freeType operands) fun type => type ≠ .boolean := by
  constructor
  intro s
  change (if operands.all (Expr.isInteger s.table) then ScalarType.integer else .real) ≠ .boolean
  split
  · exact nofun
  · exact nofun

theorem brings_give_number {free : Walk ScalarType}
    (number : Brings free fun type => type ≠ .boolean) :
    Brings (giveNumber expected op free) fun type => type ≠ .boolean ∧
      ∀ wanted, expected = some wanted → wanted ≠ .boolean → type = wanted := by
  unfold giveNumber
  split
  · apply brings_behind
    intro _
    apply brings_pure
    constructor
    · exact nofun
    · intro wanted same notBoolean
      cases same
      contradiction
  · next type notBoolean =>
    apply brings_pure
    constructor
    · exact notBoolean
    · intro wanted same _
      cases same
      rfl
  · constructor
    intro s
    exact ⟨number.value s, nofun⟩

theorem brings_operand_type (operand : Expr) :
    Brings (operandType expected op operand) fun passed =>
      (op.kind = .lparen || op.kind.isSign) = true →
        ∀ type, expected = some type → type ≠ .boolean → passed = some type := by
  unfold operandType
  split
  · exact brings_pure fun _ _ same _ => same
  · next isNot =>
    apply brings_behind
    intro _
    apply brings_pure
    intro impossible
    rw [isNot] at impossible
    cases impossible
  · apply brings_bind (brings_give_number (brings_free_type [operand]))
    intro type found
    apply brings_pure
    intro _ wanted same notBoolean
    rw [found.2 wanted same notBoolean]

theorem brings_operand_types (left right : Expr) :
    Brings (operandTypes expected op left right) fun types =>
      (op.kind.isTruth = true → types.1 = .boolean) ∧
        (op.kind.isTruth = false → types.1 ≠ .boolean ∧ types.2 = some types.1 ∧
          ∀ wanted, expected = some wanted → wanted ≠ .boolean → types.1 = wanted) := by
  unfold operandTypes
  split
  · next truth =>
    apply brings_behind
    intro _
    apply brings_pure
    constructor
    · exact fun _ => rfl
    · intro number
      rw [Kind.isTruth, truth] at number
      cases number
  · next number =>
    have free : Brings (if op.kind = .divide then pure .real else freeType [left, right])
        fun type => type ≠ .boolean := by
      split
      · exact brings_pure nofun
      · exact brings_free_type _
    apply brings_bind (brings_give_number free)
    intro type found
    apply brings_behind
    intro _
    apply brings_pure
    constructor
    · exact fun truth => absurd truth number
    · exact fun _ => ⟨found.1, rfl, found.2⟩

mutual

theorem settles_expression : (expected : Option ScalarType) → (expr : Expr) →
    Brings (expression expected expr) fun checked =>
      (∀ part ∈ checked.parts, part.Settled) ∧ checked.Heeds expected
  | expected, .literal token => by
      have settled : (∀ part ∈ (Expr.literal token).parts, part.Settled) ∧
          (Expr.literal token).Heeds expected := by
        constructor
        · exact List.forall_mem_singleton.mpr trivial
        · exact Expr.heeds_of_unsigned rfl nofun
      unfold expression
      split
      · exact brings_behind fun _ => brings_pure settled
      · exact brings_pure settled
  | expected, .name token resolved => by
      unfold expression
      apply brings_behind
      intro type
      apply brings_pure
      constructor
      · exact List.forall_mem_singleton.mpr trivial
      · exact Expr.heeds_of_unsigned rfl nofun
  | expected, .call token args resolved => by
      unfold expression
      apply brings_behind
      intro params
      apply brings_bind (settles_arguments params args)
      intro checked inner
      apply brings_pure
      constructor
      · exact List.forall_mem_cons.mpr ⟨trivial, inner⟩
      · exact Expr.heeds_of_unsigned rfl nofun
  | expected, .unary op operand => by
      rw [expression_unary]
      apply brings_bind (brings_operand_type operand)
      intro passed found
      apply brings_bind (settles_expression passed operand)
      intro checked inner
      apply brings_pure
      constructor
      · exact List.forall_mem_cons.mpr ⟨trivial, inner.1⟩
      · intro type same notBoolean
        apply Expr.carries_unary
        intro passes
        exact inner.2 type (found passes type same notBoolean) notBoolean
  | expected, .binary op left right resolved => by
      rw [expression_binary]
      apply brings_bind (brings_operand_types left right)
      intro types found
      apply brings_bind (settles_expression types.2 left)
      intro first lefts
      apply brings_bind (settles_expression types.2 right)
      intro second rights
      apply brings_pure
      have settled : Expr.IsSettled op first second (some types.1) :=
        Expr.is_settled_of_heeds found.1 (fun number => ⟨(found.2 number).1, (found.2 number).2.1⟩)
          lefts.2 rights.2
      constructor
      · exact List.forall_mem_cons.mpr ⟨settled, List.forall_mem_append.mpr ⟨lefts.1, rights.1⟩⟩
      · intro type same notBoolean
        apply Expr.carries_binary
        intro number
        rw [(found.2 number).2.2 type same notBoolean]

theorem settles_arguments : (params : List ScalarType) → (args : List Expr) →
    Brings (arguments params args) fun checked => ∀ part ∈ Expr.partsAll checked, part.Settled
  | params, [] => brings_pure (List.forall_mem_nil _)
  | params, first :: others => by
      unfold arguments
      apply brings_bind (settles_expression _ first)
      intro checked head
      apply brings_bind (settles_arguments _ others)
      intro rest tail
      exact brings_pure (List.forall_mem_append.mpr ⟨head.1, tail⟩)

end

theorem settles_program (node : Program) :
    Brings (program node) fun checked => ∀ part ∈ checked.parts, part.Settled := by
  have each : ∀ expected expr, Brings (expression expected expr) fun checked =>
      ∀ part ∈ checked.parts, part.Settled := by
    intro expected expr
    constructor
    intro s
    exact ((settles_expression expected expr).value s).1
  constructor
  intro s part member
  rcases List.mem_flatMap.mp member with ⟨expr, held, inside⟩
  exact (brings_program each node).value s expr held part inside

end Walk

/-- Every binary operator gets a type. An analysed tree is the given one but for the types it
holds. In it a binary operator is of type boolean if it compares numbers or connects truth values,
and of a type of numbers if not; then an arithmetic operator that takes its type from it, behind
any number of signs and parentheses, is of the same one. -/
theorem Analysis.every_operator_gets_a_type (program : Program) :
    (ofProgram program).program.unresolved = program.unresolved ∧
      ∀ op left right resolved,
        .binary op left right resolved ∈ (ofProgram program).program.parts →
          Expr.IsSettled op left right resolved := by
  constructor
  · have kept := (Walk.keeps_program program).value .start
    rwa [Program.shown_types, Program.shown_types] at kept
  · intro op left right resolved member
    exact (Walk.settles_program program).value .start _ member

/-- An argument of a name without a declaration, assigned to another such name: the sum is over
reals because of the fraction in it, and so is the product in parentheses behind a sign. -/
theorem Analysis.operators_in_unknown_call :
    ∃ program : Program, (ofProgram program).diagnostics.messages =
        ["x was not declared", "Variable 'f' never declared."] ∧
      ∃ sum left right, .binary sum left right (some .real) ∈ (ofProgram program).program.parts ∧
        Expr.IsSettled sum left right (some .real) ∧
        ∃ product first second,
          right.unsigned = .binary product first second (some .real) := by
  let integer (lexeme : String) : Expr := .literal ⟨.intLit, lexeme, .start⟩
  let product : Expr := .binary ⟨.times, "*", .start⟩ (integer "2") (integer "3") none
  let signed : Expr := .unary ⟨.minus, "-", .start⟩ (.unary ⟨.lparen, "(", .start⟩ product)
  let argument : Expr :=
    .binary ⟨.plus, "+", .start⟩ (.literal ⟨.realLit, "0.5", .start⟩) signed none
  let tree : Program :=
    ⟨⟨.programKw, "program", .start⟩, ⟨.ident, "p", .start⟩, none, none, [],
      ⟨.beginKw, "begin", .start⟩,
      [.assign ⟨⟨.assign, ":=", .start⟩, ⟨.ident, "x", .start⟩,
        .call ⟨.ident, "f", .start⟩ [argument] none⟩]⟩
  have messages : (ofProgram tree).diagnostics.messages =
      ["x was not declared", "Variable 'f' never declared."] := by decide +kernel
  have listed : (ofProgram tree).program.parts[1]? = some (.binary ⟨.plus, "+", .start⟩
      (.literal ⟨.realLit, "0.5", .start⟩)
      (.unary ⟨.minus, "-", .start⟩ (.unary ⟨.lparen, "(", .start⟩
        (.binary ⟨.times, "*", .start⟩ (integer "2") (integer "3") (some .real))))
      (some .real)) := rfl
  have member := List.mem_of_getElem? listed
  have settled := (every_operator_gets_a_type tree).2 _ _ _ _ member
  exact ⟨tree, messages, _, _, _, member, settled, _, _, _, rfl⟩

end TinyPascal
