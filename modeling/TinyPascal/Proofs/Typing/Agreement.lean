import TinyPascal.Proofs.Typing.Synthesis
import TinyPascal.Proofs.Walk.Basic

/-!
# Checking from the top down

On expressions without argument lists whose names all stand for variables that hold a value,
the checker agrees with typing from the leaves up: it reports nothing exactly if the expression
fits the place it stands in. Integer places are wider than the types say: a quotient of integers
is a real number from the leaves up, yet an integer place takes it.
-/

namespace TinyPascal

set_option autoImplicit false

namespace SymbolTable

/-- The name stands for a variable that has been given a value. -/
def Holds (table : SymbolTable) (token : Token) : Prop :=
  ∃ entry, table.lookup token.lexeme = some entry ∧ entry.type?.isSome = true ∧
    entry.initialized = true

end SymbolTable

namespace Walk

variable {α β : Type}

def Silent (walk : Walk α) (s : WalkState) : Prop := (walk.after s).diagnostics = s.diagnostics

end Walk

theorem WalkState.Keeps.diagnostics {s s' : WalkState} (keeps : s.Keeps s') :
    ∃ more, s'.diagnostics = s.diagnostics ++ more := by
  rcases keeps.grows with ⟨front, whole⟩
  apply Exists.intro (front.reverse.filterMap WalkEvent.diagnostic?)
  unfold WalkState.diagnostics WalkState.events
  rw [← whole, List.reverse_append, List.filterMap_append]

namespace Walk

variable {α β : Type} {s : WalkState}

theorem silent_bind {walk : Walk α} {next : α → Walk β} (first : Reads walk)
    (second : ∀ a, Reads (next a)) :
    Silent (walk >>= next) s ↔ Silent walk s ∧ Silent (next (walk.value s)) (walk.after s) := by
  rcases (first s).diagnostics with ⟨front, grown⟩
  rcases (second (walk.value s) (walk.after s)).diagnostics with ⟨back, behind⟩
  unfold Silent
  rw [after_bind, behind, grown]
  simp

theorem silent_pure (a : α) : Silent (pure a : Walk α) s := rfl

theorem not_silent_report (token : Token) (problem : SemanticProblem) :
    ¬Silent (report token problem) s := by
  unfold Silent
  rw [after_report, WalkState.diagnostics_reported]
  simp

theorem silent_arithmetic (op : Token) (type : ScalarType) :
    Silent (note (.arithmetic op type)) s := by
  simp [Silent, WalkState.diagnostics, WalkState.events, WalkEvent.diagnostic?]

theorem silent_compare (expected : Option ScalarType) (actual : Operand) (token : Token) :
    Silent (compare expected actual token) s ↔
      ∀ type, expected = some type → type.accepts actual = true := by
  unfold compare
  cases expected with
  | none => simp [silent_pure]
  | some type =>
      by_cases fits : type.accepts actual
      · simp [fits, silent_pure]
      · simp [fits, not_silent_report]

theorem silent_give_boolean (expected : Option ScalarType) (op : Token) :
    Silent (giveBoolean expected op) s ↔ expected = none ∨ expected = some .boolean := by
  unfold giveBoolean
  split
  · simp [silent_pure]
  · simp [silent_pure]
  · next type notBoolean =>
    have reported : ¬(some type = none ∨ some type = some ScalarType.boolean) := by
      simpa using notBoolean
    exact iff_of_false (not_silent_report _ _) reported

/-- Where a number is expected or nothing is, the operands of an arithmetic operator have to
have the expected type, or else the free one. -/
theorem silent_give_number_bind {expected : Option ScalarType} {op : Token} {free : Walk ScalarType}
    {next : ScalarType → Walk β} (unchanged : free.after s = s) (readsNext : ∀ type, Reads (next type)) :
    Silent (giveNumber expected op free >>= next) s ↔
      expected ≠ some .boolean ∧ Silent (next (expected.getD (free.value s))) s := by
  unfold giveNumber
  split
  · have reported : ¬Silent (do report op .numberResult; pure ScalarType.real) s :=
      not_silent_report op .numberResult
    have reads : Reads (do report op .numberResult; pure ScalarType.real) :=
      reads_bind (reads_report _ _) fun _ => reads_pure _
    rw [silent_bind reads readsNext]
    exact iff_of_false (fun both => reported both.1) (fun both => both.1 rfl)
  · next type notBoolean =>
    have number : some type ≠ some ScalarType.boolean := by simpa using notBoolean
    exact (and_iff_right number).symm
  · unfold Silent
    rw [after_bind, unchanged]
    simp

theorem value_free_type (operands : List Expr) :
    (freeType operands).value s =
      if operands.all (Expr.isInteger s.table) then .integer else .real := rfl

end Walk

/-- In state `s` all `known` names stand for variables that hold a value, and `types` gives
the types of the variables. -/
structure WalkState.Sees (known : Token → Prop) (types : String → Option ScalarType)
    (s : WalkState) : Prop where
  holds : ∀ token, known token → s.table.Holds token
  types : s.table.types = types

namespace WalkState.Sees

variable {known : Token → Prop} {types : String → Option ScalarType} {s s' : WalkState}

theorem keeps (sees : s.Sees known types) (keeps : s.Keeps s') : s'.Sees known types := by
  constructor
  · intro token isKnown
    rcases sees.holds token isKnown with ⟨entry, found, isVariable, initialized⟩
    have same := keeps.entries token.lexeme
    rw [found, Option.map_some] at same
    cases now : s'.table.lookup token.lexeme with
    | none => simp [now] at same
    | some other =>
        rw [now, Option.map_some, Option.some.injEq] at same
        have sameType := congrArg Entry.type? same
        change other.type? = entry.type? at sameType
        have sameMark := congrArg Entry.initialized same
        change other.initialized = entry.initialized at sameMark
        rw [← sameType] at isVariable
        exact ⟨other, now, isVariable, sameMark.trans initialized⟩
  · rw [← sees.types]
    funext name
    exact keeps.type_eq name

end WalkState.Sees

namespace Walk

variable {known : Token → Prop} {types : String → Option ScalarType} {s : WalkState}

theorem run_read_name {token : Token} {entry : Entry} (found : s.table.lookup token.lexeme = some entry)
    (initialized : entry.initialized = true) :
    (readName token).value s = some entry.meaning ∧
      (readName token).after s = { s with table := s.table.markUsed token.lexeme } := by
  simp [readName, found, initialized]

/-- Reading a variable that holds a value reports no more than a type that does not fit. -/
theorem silent_check_name {expected : Option ScalarType} {token : Token} {resolved : Option ScalarType}
    (holds : s.table.Holds token) :
    Silent (checkName expected token) s ↔
      (Expr.name token resolved).Fits s.table.types expected := by
  rcases holds with ⟨entry, found, isVariable, initialized⟩
  have read := run_read_name found initialized
  cases typed : entry.type? with
  | none => simp [typed] at isVariable
  | some type =>
      have isMeaning : entry.meaning = .variableOf type := by
        unfold Entry.type? at typed
        revert typed
        cases entry.meaning <;> simp
      have known : s.table.types token.lexeme = some type := by
        rw [SymbolTable.types, found, Option.bind_some, typed]
      have compared : Silent (checkName expected token) s ↔
          Silent (compare expected (.typed type) token)
            { s with table := s.table.markUsed token.lexeme } := by
        unfold Silent checkName
        rw [after_bind, read.1, read.2, isMeaning]
        rfl
      have leaf : (Expr.name token resolved).OverIntegers s.table.types ↔ type = .integer := by
        simp [Expr.OverIntegers, known]
      have synth : (Expr.name token resolved).synth s.table.types = some (Operand.typed type).type :=
        known
      rw [compared, silent_compare, Expr.fits_leaf synth leaf]

theorem silent_literal {expected : Option ScalarType} {token : Token}
    (isLiteral : token.kind.isLiteral = true) :
    Silent (expression expected (.literal token)) s ↔
      (Expr.literal token).Fits types expected := by
  cases known : Operand.ofLiteral? token.kind with
  | none =>
      revert isLiteral known
      cases token.kind <;> simp [Kind.isLiteral, Operand.ofLiteral?]
  | some actual =>
      have compared : Silent (expression expected (.literal token)) s ↔
          Silent (compare expected actual token) s := by
        unfold Silent expression
        rw [known]
        rfl
      have typed : (Expr.literal token).synth types = some actual.type := by
        simp [Expr.synth, known]
      have leaf : (Expr.literal token).OverIntegers types ↔ actual.type = .integer := by
        simp only [Expr.OverIntegers]
        revert known
        cases token.kind <;> simp [Operand.ofLiteral?] <;> intro same <;> simp [← same, Operand.type]
      rw [compared, silent_compare, Expr.fits_leaf typed leaf]

theorem expression_sign {op : Token} (isOp : op.kind.isSign = true) (expected : Option ScalarType)
    (operand : Expr) : expression expected (.unary op operand) = do
      let type ← giveNumber expected op (freeType [operand])
      return .unary op (← expression (some type) operand) := by
  rw [expression]
  revert isOp
  cases op.kind <;> simp [Kind.isSign]

theorem expression_truth {op : Token} (isOp : (op.kind.isRelational || op.kind.isLogical) = true)
    (expected : Option ScalarType) (left right : Expr) (resolved : Option ScalarType) :
    expression expected (.binary op left right resolved) = do
      giveBoolean expected op
      let left ← expression (if op.kind.isLogical then some .boolean else none) left
      let right ← expression (if op.kind.isLogical then some .boolean else none) right
      return .binary op left right (some .boolean) := by
  rw [expression, if_pos isOp]

theorem expression_arithmetic {op : Token} (isOp : op.kind.isArithmetic = true)
    (expected : Option ScalarType) (left right : Expr) (resolved : Option ScalarType) :
    expression expected (.binary op left right resolved) = do
      let type ← giveNumber expected op
        (if op.kind = .divide then pure .real else freeType [left, right])
      note (.arithmetic op type)
      let left ← expression (some type) left
      let right ← expression (some type) right
      return .binary op left right (some type) := by
  rw [expression, if_neg]
  revert isOp
  cases op.kind <;> simp [Kind.isArithmetic, Kind.isRelational, Kind.isLogical]

theorem reads_built (expected : Option ScalarType) (operand : Expr) (build : Expr → Expr) :
    Reads (do return build (← expression expected operand)) :=
  reads_bind (reads_expression expected operand) fun _ => reads_pure _

theorem reads_operands (expected : Option ScalarType) (left right : Expr)
    (build : Expr → Expr → Expr) : Reads (do
      let left ← expression expected left
      let right ← expression expected right
      return build left right) :=
  reads_bind (reads_expression expected left) fun left => reads_built expected right (build left)

theorem silent_operands {expected : Option ScalarType} {left right : Expr}
    {build : Expr → Expr → Expr} (sees : s.Sees known types)
    (first : Silent (expression expected left) s ↔ left.Fits types expected)
    (second : ∀ {s : WalkState}, s.Sees known types →
      (Silent (expression expected right) s ↔ right.Fits types expected)) :
    Silent (do
      let left ← expression expected left
      let right ← expression expected right
      return build left right) s ↔ left.Fits types expected ∧ right.Fits types expected := by
  have reads := reads_expression expected left
  rw [silent_bind reads fun left => reads_built expected right (build left), first]
  exact and_congr_right fun _ => second (sees.keeps (reads s))

/-- The checker reports nothing about an expression exactly if it fits its place. -/
theorem silent_expression {expr : Expr} (simple : expr.Simple known) (expected : Option ScalarType)
    (sees : s.Sees known types) :
    Silent (expression expected expr) s ↔ expr.Fits types expected := by
  induction simple generalizing s expected with
  | literal isLiteral => exact silent_literal isLiteral
  | @name token resolved isKnown =>
      rw [← sees.types, ← silent_check_name (sees.holds token isKnown)]
      unfold Silent expression
      rfl
  | @parens op operand isOp inside induction =>
      rw [Expr.fits_parens isOp, ← induction expected sees]
      unfold Silent
      rw [expression, isOp]
      rfl
  | @negation op operand isOp inside induction =>
      have opens := reads_give_boolean expected op
      rw [Expr.fits_negation isOp, expression, isOp]
      apply (silent_bind opens fun _ => reads_built _ operand _).trans
      exact and_congr (silent_give_boolean expected op) (induction _ (sees.keeps (opens s)))
  | @sign op operand isOp inside induction =>
      have free : (freeType [operand]).value s =
          if operand.synth types = some .integer then .integer else .real := by
        rw [value_free_type, ← sees.types]
        simp [Expr.is_integer_iff inside]
      rw [Expr.fits_sign isOp inside, expression_sign isOp, ← free, ← induction _ sees]
      exact silent_give_number_bind rfl fun type => reads_built _ operand _
  | @relation op left right resolved isOp first second left_ih right_ih =>
      have opens := reads_give_boolean expected op
      have notLogical : op.kind.isLogical = false := by
        revert isOp
        cases op.kind <;> simp [Kind.isRelational, Kind.isLogical]
      rw [Expr.fits_relation isOp, expression_truth (by simp [isOp]), notLogical]
      apply (silent_bind opens fun _ => reads_operands _ left right _).trans
      have sees' := sees.keeps (opens s)
      exact and_congr (silent_give_boolean expected op)
        (silent_operands sees' (left_ih _ sees') (right_ih _))
  | @logic op left right resolved isOp first second left_ih right_ih =>
      have opens := reads_give_boolean expected op
      rw [Expr.fits_logic isOp, expression_truth (by simp [isOp]), if_pos isOp]
      apply (silent_bind opens fun _ => reads_operands _ left right _).trans
      have sees' := sees.keeps (opens s)
      exact and_congr (silent_give_boolean expected op)
        (silent_operands sees' (left_ih _ sees') (right_ih _))
  | @arithmetic op left right resolved isOp first second left_ih right_ih =>
      have free : (if op.kind = .divide then pure .real else freeType [left, right]).value s =
          if op.kind ≠ .divide ∧ left.synth types = some .integer ∧
            right.synth types = some .integer then .integer else .real := by
        by_cases quotient : op.kind = .divide
        · simp [quotient]
        · rw [if_neg quotient, value_free_type, ← sees.types]
          simp [quotient, Expr.is_integer_iff first, Expr.is_integer_iff second]
      rw [Expr.fits_arithmetic isOp first second rfl, expression_arithmetic isOp]
      apply (silent_give_number_bind (after_free op _ s) fun type =>
        reads_bind (reads_note _) fun _ => reads_operands _ left right _).trans
      rw [free]
      apply and_congr_right
      intro _
      have sees' : ∀ type, ((note (.arithmetic op type)).after s).Sees known types :=
        fun type => sees.keeps (.noted s _)
      apply (silent_bind (reads_note _) fun _ => reads_operands _ left right _).trans
      apply (and_iff_right (silent_arithmetic op _)).trans
      exact silent_operands (sees' _) (left_ih _ (sees' _)) (right_ih _)

/-- Checking from the top down agrees with typing from the leaves up. Take an expression of
a shape that a text gives, without argument lists, whose names all stand for variables that hold
a value. With no type expected, nothing is reported exactly if the expression has a type; with
`real` expected, exactly if it has a number type; with `boolean` expected, exactly if it is a truth
value; with `integer` expected, exactly if it is built from integer literals and integer variables
alone. -/
theorem checking_agrees_with_synthesis (expr : Expr) (s : WalkState)
    (simple : expr.Simple s.table.Holds) :
    (Silent (expression none expr) s ↔ (expr.synth s.table.types).isSome = true) ∧
    (Silent (expression (some .real) expr) s ↔
      expr.synth s.table.types = some .integer ∨ expr.synth s.table.types = some .real) ∧
    (Silent (expression (some .boolean) expr) s ↔ expr.synth s.table.types = some .boolean) ∧
    (Silent (expression (some .integer) expr) s ↔ expr.OverIntegers s.table.types) := by
  have sees : s.Sees s.table.Holds s.table.types := ⟨fun _ holds => holds, rfl⟩
  exact ⟨silent_expression simple none sees, silent_expression simple (some .real) sees,
    silent_expression simple (some .boolean) sees, silent_expression simple (some .integer) sees⟩

/-- A quotient of integers has a real type, yet it does where an integer is expected. -/
theorem quotient_of_integers :
    ∃ (expr : Expr) (s : WalkState), expr.Simple s.table.Holds ∧
      expr.synth s.table.types = some .real ∧ Silent (expression none expr) s ∧
      Silent (expression (some .integer) expr) s ∧ ¬Silent (expression (some .boolean) expr) s := by
  let token : Token := ⟨.ident, "i", ⟨1, 1, 0⟩⟩
  let s : WalkState := ⟨⟨[("i", .ofParam token .integer)], []⟩, []⟩
  let expr : Expr :=
    .binary ⟨.divide, "/", ⟨1, 3, 2⟩⟩ (.name token none) (.literal ⟨.intLit, "2", ⟨1, 5, 4⟩⟩) none
  have holds : s.table.Holds token := ⟨.ofParam token .integer, rfl, rfl, rfl⟩
  have simple : expr.Simple s.table.Holds := .arithmetic rfl (.name holds) (.literal rfl)
  have type : expr.synth s.table.types = some .real := by decide +kernel
  have integers : expr.OverIntegers s.table.types := ⟨rfl, rfl, rfl⟩
  rcases checking_agrees_with_synthesis expr s simple with ⟨free, _, boolean, integer⟩
  have defined : (expr.synth s.table.types).isSome = true := by rw [type, Option.isSome_some]
  have refused : ¬Silent (expression (some .boolean) expr) s := by
    rw [boolean, type]
    decide
  exact ⟨expr, s, simple, type, free.mpr defined, integer.mpr integers, refused⟩

end Walk

end TinyPascal
