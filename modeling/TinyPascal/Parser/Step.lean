import TinyPascal.Parser.State

/-!
# Steps of a parse

A step takes a state to a value and a state in which no more is unread than
before. A step of type `Step n` may be taken wherever fewer than `n` tokens are
unread, so a rule of the grammar that calls itself only behind a consumed token
is a plain recursion on `n`: `Step.consuming` lowers the bound, and below the
bound zero there is nothing to do.

A rule is a step that may be abandoned. It is abandoned only after an error has
been recorded, and whoever called it decides where reading goes on.

The grammar is written in terms of a few moves, of which the steps are one
interpretation: what is put together from moves can also be read in another way.
-/

namespace TinyPascal

set_option autoImplicit false

/-- What comes out of a step from `before`. -/
structure Outcome (before : ParseState) (α : Type) where
  value : α
  state : ParseState
  noMore : state.unread.length ≤ before.unread.length

def Step (n : Nat) (α : Type) : Type :=
  (s : ParseState) → s.unread.length < n → Outcome s α

namespace Step

variable {n m : Nat} {α β : Type}

instance : Monad (Step n) where
  pure value := fun s _ => ⟨value, s, Nat.le_refl _⟩
  bind step next := fun s bounded =>
    let first := step s bounded
    let second := next first.value first.state (Nat.lt_of_le_of_lt first.noMore bounded)
    ⟨second.value, second.state, Nat.le_trans second.noMore first.noMore⟩

instance : LawfulMonad (Step n) :=
  LawfulMonad.mk' (Step n) (fun _ => rfl) (fun _ _ => rfl) (fun _ _ _ => rfl)

/-- Nothing can be asked where not even the empty rest fits. -/
def never : Step 0 α := fun _ bounded => absurd bounded (Nat.not_lt_zero _)

/-- A step may be taken under a tighter bound. -/
def within (fits : m ≤ n) (step : Step n α) : Step m α :=
  fun s bounded => step s (Nat.lt_of_lt_of_le bounded fits)

def current : Step n Token := fun s _ => ⟨s.current, s, Nat.le_refl _⟩

def sees (kinds : Kind → Bool) : Step n Bool :=
  fun s _ => ⟨kinds s.current.kind, s, Nat.le_refl _⟩

def panicking : Step n Bool := fun s _ => ⟨s.panicking, s, Nat.le_refl _⟩

def calm : Step n Unit := fun s _ => ⟨(), s.calm, Nat.le_refl _⟩

def warn (token : Token) (problem : SyntacticProblem) : Step n Unit :=
  fun s _ => ⟨(), s.warn token problem, Nat.le_refl _⟩

def refuse (problem : SyntacticProblem) : Step n Unit :=
  fun s _ => ⟨(), s.refuse problem, Nat.le_refl _⟩

/-- Consumes the next token if it is of a kind in `kinds`. -/
def take (kinds : Kind → Bool) : Step n (Option Token) := fun s _ =>
  match s.unread with
  | [] => ⟨none, s, Nat.le_refl _⟩
  | arrival :: _ =>
      if kinds arrival.token.kind then
        ⟨some arrival.token, s.advance, by simp⟩
      else ⟨none, s, Nat.le_refl _⟩

/-- Consumes the next token if it is of a kind in `kinds` and goes on with
`behind`, under a bound lower by one; otherwise goes on with `otherwise`. -/
def consuming (kinds : Kind → Bool) (behind : Token → Step n α) (otherwise : Step (n + 1) α) :
    Step (n + 1) α := fun s bounded =>
  match unread : s.unread with
  | [] => otherwise s bounded
  | arrival :: rest =>
      if kinds arrival.token.kind then
        let outcome := behind arrival.token s.advance (by
          rw [ParseState.unread_advance, unread]
          rw [unread] at bounded
          exact Nat.lt_of_succ_lt_succ bounded)
        ⟨outcome.value, outcome.state, Nat.le_trans outcome.noMore (by simp)⟩
      else otherwise s bounded

/-- Ends a panic by discarding tokens up to one of a kind in `stops`. Without a
panic nothing happens. -/
def recover (stops : Kind → Bool) : Step n Unit := fun s _ =>
  if s.panicking then ⟨(), s.calm.skipTo stops, s.calm.length_unread_skip_to stops⟩
  else ⟨(), s, Nat.le_refl _⟩

end Step

/-- The rules that may be abandoned. -/
inductive Attempt where
  | variableGroups | paramGroups | command | block | forLoop | arguments | commaList | expr
  | simpleExpr | term | factor
deriving DecidableEq, Repr

/-- The rules that are never abandoned. -/
inductive Passage where
  | varSection | procedures | procedure | commandList
deriving DecidableEq, Repr

/-- The moves that the grammar is put together from. A move of type `P n α` may be
made wherever fewer than `n` tokens are unread. Which rule is being read is said by
`trying`, for a rule that may be abandoned, and by `passing`. -/
class Parsing (P : Nat → Type → Type) [∀ n, Monad (P n)] where
  never {α : Type} : P 0 α
  within {n m : Nat} {α : Type} : m ≤ n → P n α → P m α
  current {n : Nat} : P n Token
  sees {n : Nat} : (Kind → Bool) → P n Bool
  panicking {n : Nat} : P n Bool
  calm {n : Nat} : P n Unit
  warn {n : Nat} : Token → SyntacticProblem → P n Unit
  refuse {n : Nat} : SyntacticProblem → P n Unit
  take {n : Nat} : (Kind → Bool) → P n (Option Token)
  consuming {n : Nat} {α : Type} : (Kind → Bool) → (Token → P n α) → P (n + 1) α → P (n + 1) α
  recover {n : Nat} : (Kind → Bool) → P n Unit
  trying {n : Nat} {α : Type} : Attempt → (α → Bool) → P n α → P n α
  passing {n : Nat} {α : Type} : Passage → P n α → P n α

@[default_instance]
instance : Parsing Step where
  never := Step.never
  within := Step.within
  current := Step.current
  sees := Step.sees
  panicking := Step.panicking
  calm := Step.calm
  warn := Step.warn
  refuse := Step.refuse
  take := Step.take
  consuming := Step.consuming
  recover := Step.recover
  trying _ _ step := step
  passing _ step := step

/-- A move that may be abandoned. -/
abbrev RuleOf (P : Nat → Type → Type) (n : Nat) (α : Type) : Type := OptionT (P n) α

abbrev Rule (n : Nat) (α : Type) : Type := RuleOf Step n α

namespace Rule

variable {P : Nat → Type → Type} [∀ n, Monad (P n)] [Parsing P] {n m : Nat} {α : Type}

def never : RuleOf P 0 α := OptionT.mk Parsing.never

def within (fits : m ≤ n) (rule : RuleOf P n α) : RuleOf P m α :=
  OptionT.mk (Parsing.within fits rule.run)

def consuming (kinds : Kind → Bool) (behind : Token → RuleOf P n α)
    (otherwise : RuleOf P (n + 1) α) : RuleOf P (n + 1) α :=
  OptionT.mk (Parsing.consuming kinds (fun token => (behind token).run) otherwise.run)

def trying (attempt : Attempt) (rule : RuleOf P n α) : RuleOf P n α :=
  OptionT.mk (Parsing.trying attempt Option.isNone rule.run)

/-- A step is a rule that is never abandoned. -/
def ofStep (step : P n α) : RuleOf P n α := OptionT.lift step

def refuse (problem : SyntacticProblem) : RuleOf P n α := do
  ofStep (Parsing.refuse problem)
  failure

/-- Records an error that quotes the token now looked at, and abandons the
rule. -/
def refuseQuoting (problem : String → SyntacticProblem) : RuleOf P n α := do
  refuse (problem (← ofStep Parsing.current).lexeme)

def expectAny (kinds : Kind → Bool) (otherwise : RuleOf P n Token) : RuleOf P n Token := do
  match ← ofStep (Parsing.take kinds) with
  | some token => return token
  | none => otherwise

def expect (kind : Kind) (problem : SyntacticProblem) : RuleOf P n Token :=
  expectAny (· = kind) (refuse problem)

end Rule

/-- Read step by step, a rule does not depend on what it is called. -/
theorem Rule.trying_eq {n : Nat} {α : Type} (attempt : Attempt) (rule : Rule n α) :
    trying attempt rule = rule := rfl

/-- The items read in a row, and whether the row ended by itself rather than at
an abandoned item. -/
structure Row (α : Type) where
  items : List α
  complete : Bool

section Rows

variable {P : Nat → Type → Type} [∀ n, Monad (P n)] [Parsing P] {n : Nat} {α : Type}

/-- Reads items, each introduced by a token of a kind in `opens`, until no such
token follows or an item is abandoned. -/
def Step.row (opens : Kind → Bool) (item : Token → RuleOf P n α) :
    (m : Nat) → m ≤ n + 1 → P m (Row α)
  | 0, _ => Parsing.never
  | m + 1, fits =>
      have fits := Nat.le_of_succ_le_succ fits
      Parsing.consuming opens
        (fun opening => do
          match ← Parsing.within fits (item opening).run with
          | none => return ⟨[], false⟩
          | some first =>
              let others ← row opens item m (Nat.le_succ_of_le fits)
              return { others with items := first :: others.items })
        (pure ⟨[], true⟩)

/-- A row of items, abandoned as soon as one of them is. -/
def Rule.row (opens : Kind → Bool) (item : Token → RuleOf P n α) : RuleOf P n (List α) := do
  let row ← ofStep (Step.row opens item n (Nat.le_succ n))
  if row.complete then return row.items else failure

end Rows

end TinyPascal
