import TinyPascal.Proofs.Phrase.Program

/-!
# What a phrase starts with and what may follow it

A phrase ends where the next token does not continue it. The first tokens tell the
phrases apart.
-/

namespace TinyPascal.Phrase

set_option autoImplicit false

/-- Not followed by a token of a kind in `kinds`. -/
def NotBefore (kinds : Kind → Bool) (rest : List Token) : Prop := faces kinds rest = false

/-- What would make a name into a call. -/
def continuesFactor : Kind → Bool
  | .lparen => true
  | _ => false

def continuesTerm (kind : Kind) : Bool := continuesFactor kind || kind.isMultiplicative

def continuesSimple (kind : Kind) : Bool := continuesTerm kind || kind.isAdditive

def continuesExpr (kind : Kind) : Bool := continuesSimple kind || kind.isRelational

def continuesCommand (closed : Bool) (kind : Kind) : Bool :=
  continuesExpr kind || kind = .assign || (!closed && kind = .elseKw)

def startsFactor : Kind → Bool
  | .intLit | .realLit | .trueLit | .falseLit | .notOp | .lparen | .ident => true
  | _ => false

def startsExpr (kind : Kind) : Bool := startsFactor kind || kind.isSign

def startsCommand : Kind → Bool
  | .ident | .beginKw | .ifKw | .whileKw | .forKw => true
  | _ => false

theorem not_faces_of_faces {kinds other : Kind → Bool} {tokens : List Token}
    (apart : ∀ kind, kinds kind = true → other kind = false)
    (faced : faces kinds tokens = true) : faces other tokens = false := by
  cases tokens with
  | nil => cases faced
  | cons token others => exact apart token.kind faced

theorem faces_append {kinds : Kind → Bool} {tokens : List Token} (rest : List Token)
    (faced : faces kinds tokens = true) : faces kinds (tokens ++ rest) = true := by
  cases tokens with
  | nil => cases faced
  | cons token others => exact faced

theorem NotBefore.mono {kinds more : Kind → Bool}
    (implies : ∀ kind, kinds kind = true → more kind = true) {rest : List Token}
    (right : NotBefore more rest) : NotBefore kinds rest := by
  cases rest with
  | nil => rfl
  | cons token others =>
      apply Bool.eq_false_iff.mpr
      intro faced
      exact Bool.false_ne_true (right.symm.trans (implies token.kind faced))

theorem not_before_of_kind {kinds : Kind → Bool} {token : Token} {kind : Kind}
    (same : token.kind = kind) (fine : kinds kind = false) (others : List Token) :
    NotBefore kinds (token :: others) := by
  show kinds token.kind = false
  rw [same]
  exact fine

theorem continues_command_open {closed : Bool} (kind : Kind)
    (continues : continuesCommand closed kind = true) : continuesCommand false kind = true := by
  cases closed with
  | false => exact continues
  | true =>
      simp only [continuesCommand, Bool.not_true, Bool.false_and, Bool.or_false] at continues
      simp only [continuesCommand, continues, Bool.true_or]

theorem factor_starts {n : Nat} {script : Script} {rest : List Token} {value : Expr}
    (read : Factor n script rest value) : faces startsFactor script.tokens = true := by
  cases n with
  | zero => exact read.elim
  | succ n =>
      cases read with
      | @literal token _ isLiteral =>
          rw [Script.tokens_read, faces_cons]
          revert isLiteral
          cases token.kind <;> decide
      | negation negates _ => simp [negates, startsFactor]
      | parentheses opens _ _ => simp [opens, startsFactor]
      | name isName _ => simp [isName, startsFactor]
      | call isName _ => simp [isName, startsFactor]

theorem term_starts {n : Nat} {script : Script} {rest : List Token} {value : Expr}
    (read : Term (Factor n) script rest value) : faces startsFactor script.tokens = true := by
  obtain ⟨head, -⟩ := read
  rw [Script.tokens_append]
  exact faces_append _ (factor_starts head)

theorem starts_expr_of_factor {tokens : List Token} (faced : faces startsFactor tokens = true) :
    faces startsExpr tokens = true := by
  cases tokens with
  | nil => cases faced
  | cons token others =>
      rw [faces_cons, startsExpr, Bool.or_eq_true]
      exact .inl faced

theorem simple_starts {n : Nat} {script : Script} {rest : List Token} {value : Expr}
    (read : Simple (Factor n) script rest value) : faces startsExpr script.tokens = true := by
  cases read with
  | unsigned _ head _ =>
      rw [Script.tokens_append]
      exact faces_append _ (starts_expr_of_factor (term_starts head))
  | signed isSign _ _ => simp [startsExpr, isSign]

theorem expression_starts {n : Nat} {script : Script} {rest : List Token} {value : Expr}
    (read : Expression n script rest value) : faces startsExpr script.tokens = true := by
  cases read with
  | plain only _ => exact simple_starts only
  | compared before _ _ =>
      rw [Script.tokens_append]
      exact faces_append _ (simple_starts before)

theorem command_starts {broken : Breakage} {n : Nat} {script : Script} {rest : List Token}
    {value : Command} (read : SingleCommand broken n script rest value) :
    faces startsCommand script.tokens = true := by
  cases n with
  | zero => exact read.elim
  | succ n =>
      cases read with
      | assign isKeyword | bareCall isKeyword | call isKeyword | block isKeyword
      | ifThen isKeyword | ifElse isKeyword | whileDo isKeyword | forDo isKeyword =>
          simp [isKeyword, startsCommand]

/-- A procedure that lacks its semicolon must not be followed by another one. -/
def behindProcedure (rest : List Token) : Prop := rest ≠ [] ∧ NotBefore (· = .semicolon) rest

theorem procedures_starts {broken : Breakage} {n : Nat} {script : Script} {rest : List Token}
    {values : List Program} (read : Procedures broken n script rest values)
    (begun : faces (· = .beginKw) rest = true) :
    faces Kind.endsVariables (script.tokens ++ rest) = true := by
  cases n with
  | zero => exact read.elim
  | succ n =>
      cases read with
      | stop _ =>
          cases rest with
          | nil => cases begun
          | cons token others => rw [faces_cons, decide_eq_true_eq] at begun; simp [begun]; rfl
      | more opens => rw [decide_eq_true_eq] at opens; simp [opens]; rfl

end TinyPascal.Phrase
