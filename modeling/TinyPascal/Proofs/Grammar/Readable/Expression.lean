import TinyPascal.Proofs.Grammar.Derived
import TinyPascal.Proofs.Phrase.Follow

/-!
# Derived expressions are read

Each name of the grammar stands for words that the phrases of the parser cover,
whatever the tokens of the word look like, if what follows does not continue the
word. This is kept by the rules for expressions.
-/

namespace TinyPascal.Grammar

set_option autoImplicit false

open Phrase

variable {α : Type} {n : Nat}

/-- Tokens that spell `text`, fewer than `bound`, can be read as the phrase if
what follows is right. -/
def Covers (phrase : Phrase α) (bound : Nat) (follow : List Token → Prop) (text : List Kind) :
    Prop :=
  ∀ tokens rest, tokens.map Token.kind = text → tokens.length < bound → follow rest →
    ∃ script value, phrase script rest value ∧ script.tokens = tokens

theorem Repeated.mono {one other : List Kind → Prop} {text : List Kind}
    (implies : ∀ text, one text → other text) (repeated : Repeated one text) :
    Repeated other text := by
  induction repeated with
  | stop => exact .stop
  | more head _ induction => exact .more (implies _ head) induction

theorem series_of_repeated {kinds : Kind → Bool} {item : Token → Phrase α}
    {inner : List Kind → Prop} {follow : List Token → Prop} {bound : Nat} {text : List Kind}
    {tokens rest : List Token} {tail : Script} {values : List α}
    (each : ∀ opening text, inner text → Covers (item opening) bound follow text)
    (again : ∀ opening others, kinds opening.kind = true → follow (opening :: others))
    (repeated : Repeated (Opened kinds inner) text) (same : tokens.map Token.kind = text)
    (short : tokens.length ≤ bound) (last : Series kinds item tail rest values)
    (ended : follow (tail.tokens ++ rest)) :
    ∃ script values, Series kinds item script rest values ∧ script.tokens = tokens ++ tail.tokens := by
  induction repeated generalizing tokens with
  | stop =>
      rw [List.map_eq_nil_iff] at same
      exact ⟨tail, values, last, by rw [same]; rfl⟩
  | more head _ induction =>
      obtain ⟨kind, behind, rfl, opens, meant⟩ := head
      simp only [List.cons_append, List.map_eq_cons_iff, List.map_eq_append_iff] at same
      obtain ⟨opening, _, rfl, rfl, front, back, rfl, spelled, others⟩ := same
      simp only [List.length_cons, List.length_append] at short
      obtain ⟨after, following, series, covered⟩ := induction others (by omega)
      have faced : follow (after.tokens ++ rest) := by
        cases series with
        | stop _ =>
            have noTail : tail.tokens = [] := by
              rw [Script.tokens_nil] at covered
              exact (List.append_eq_nil_iff.mp covered.symm).2
            rwa [noTail] at ended
        | more opensNext => exact again _ _ opensNext
      obtain ⟨script, value, read, same⟩ :=
        each opening behind meant front (after.tokens ++ rest) spelled (by omega) faced
      refine ⟨.read opening :: (script ++ after), _, .more opens read series, ?_⟩
      simp [same, covered]

theorem covers_of_succ {phrase : Nat → Phrase α} {follow : List Token → Prop} {text : List Kind}
    (covers : ∀ n, Covers (phrase (n + 1)) (n + 1) follow text) (n : Nat) :
    Covers (phrase n) n follow text := by
  cases n with
  | zero =>
      intro tokens rest same short
      exact absurd short (Nat.not_lt_zero _)
  | succ n => exact covers n

theorem covers_chain {ops follows : Kind → Bool} {operand : Phrase Expr} {inner : List Kind → Prop}
    {first others : List Kind} (apart : ∀ kind, ops kind = true → follows kind = false)
    (each : ∀ text, inner text → Covers operand n (NotBefore follows) text) (head : inner first)
    (tail : Repeated (Opened ops inner) others) {tokens rest : List Token}
    (same : tokens.map Token.kind = first ++ others) (short : tokens.length < n)
    (right : NotBefore (fun kind => follows kind || ops kind) rest) :
    ∃ front back value links, operand front (back.tokens ++ rest) value ∧
      Series ops (Link operand) back rest links ∧ front.tokens ++ back.tokens = tokens := by
  rw [List.map_eq_append_iff] at same
  obtain ⟨start, following, rfl, spelled, spelledOthers⟩ := same
  rw [List.length_append] at short
  have again : ∀ opening others, ops opening.kind = true → NotBefore follows (opening :: others) := by
    intro opening others opens
    exact apart opening.kind opens
  have ended : NotBefore follows rest := right.mono fun kind faced => by simp [faced]
  have stops : NotBefore ops rest := right.mono fun kind faced => by simp [faced]
  have links : ∀ opening text, inner text → Covers (Link operand opening) n (NotBefore follows) text := by
    intro opening text meant tokens rest same short right
    obtain ⟨script, value, read, spelled⟩ := each text meant tokens rest same short right
    exact ⟨script, (opening, value), ⟨rfl, read⟩, spelled⟩
  obtain ⟨back, values, series, covered⟩ := series_of_repeated links again tail spelledOthers
    (by omega) (.stop stops) ended
  rw [Script.tokens_nil, List.append_nil] at covered
  have behind : NotBefore follows (back.tokens ++ rest) := by
    cases series with
    | stop _ => exact ended
    | more opens => exact again _ _ opens
  obtain ⟨front, value, read, spelledFront⟩ := each first head start _ spelled (by omega) behind
  exact ⟨front, back, value, values, read, series, by rw [spelledFront, covered]⟩

def FactorWord (text : List Kind) : Prop :=
  ∀ n, Covers (Factor n) n (NotBefore continuesFactor) text

def TermWord (text : List Kind) : Prop :=
  ∀ n, Covers (Term (Factor n)) n (NotBefore continuesTerm) text

def SimpleWord (text : List Kind) : Prop :=
  ∀ n, Covers (Simple (Factor n)) n (NotBefore continuesSimple) text

def ExprWord (text : List Kind) : Prop :=
  ∀ n, Covers (Expression n) n (NotBefore continuesExpr) text

def ArgumentsWord (text : List Kind) : Prop :=
  ∀ n, Covers (Arguments (Expression n)) n (fun _ => True) text

theorem term_word_of_factors {first others : List Kind} (head : FactorWord first)
    (tail : Repeated (Opened Kind.isMultiplicative FactorWord) others) :
    TermWord (first ++ others) := by
  intro n tokens rest same short right
  obtain ⟨front, back, value, links, read, series, rfl⟩ := covers_chain
    (by intro kind; cases kind <;> decide) (fun text word => word n) head tail same short right
  exact ⟨front ++ back, _, .intro read series, Script.tokens_append front back⟩

theorem simple_word_of_terms {sign first others : List Kind}
    (signed : sign = [] ∨ ∃ kind, kind.isSign = true ∧ sign = [kind]) (head : TermWord first)
    (tail : Repeated (Opened Kind.isAdditive TermWord) others) :
    SimpleWord (sign ++ (first ++ others)) := by
  have terms : ∀ {n : Nat} {tokens rest : List Token}, tokens.map Token.kind = first ++ others →
      tokens.length < n → NotBefore continuesSimple rest →
      ∃ front back value links, Term (Factor n) front (back.tokens ++ rest) value ∧
        Series Kind.isAdditive (Link (Term (Factor n))) back rest links ∧
        front.tokens ++ back.tokens = tokens := by
    intro n tokens rest same short right
    exact covers_chain (by intro kind; cases kind <;> decide) (fun text word => word n) head tail
      same short right
  intro n tokens rest same short right
  rcases signed with rfl | ⟨kind, isSign, rfl⟩
  · obtain ⟨front, back, value, links, read, series, rfl⟩ := terms same short right
    refine ⟨front ++ back, _, .unsigned ?_ read series, Script.tokens_append front back⟩
    exact not_faces_of_faces (by intro kind; cases kind <;> decide) (faces_append _ (term_starts read))
  · simp only [List.cons_append, List.nil_append, List.map_eq_cons_iff] at same
    obtain ⟨sign, behind, rfl, rfl, same⟩ := same
    obtain ⟨front, back, value, links, read, series, rfl⟩ :=
      terms same (Nat.lt_of_succ_lt short) right
    exact ⟨.read sign :: (front ++ back), _, .signed isSign read series, by simp⟩

theorem expr_word_of_simples {left tail : List Kind} (head : SimpleWord left)
    (compared : tail = [] ∨ Opened Kind.isRelational SimpleWord tail) :
    ExprWord (left ++ tail) := by
  intro n tokens rest same short right
  have rightSimple : NotBefore continuesSimple rest := right.mono fun kind faced => by
    simp [continuesExpr, faced]
  have ended : NotBefore Kind.isRelational rest := right.mono fun kind faced => by
    simp [continuesExpr, faced]
  rcases compared with rfl | ⟨kind, after, rfl, relates, word⟩
  · rw [List.append_nil] at same
    obtain ⟨script, value, read, spelled⟩ := head n tokens rest same short rightSimple
    exact ⟨script, value, .plain read ended, spelled⟩
  · simp only [List.map_eq_append_iff, List.map_eq_cons_iff] at same
    obtain ⟨start, _, rfl, spelled, op, following, rfl, rfl, spelledAfter⟩ := same
    simp only [List.length_append, List.length_cons] at short
    obtain ⟨back, value, readAfter, rfl⟩ := word n following rest spelledAfter (by omega) rightSimple
    have between : NotBefore continuesSimple (op :: (back.tokens ++ rest)) := by
      show continuesSimple op.kind = false
      revert relates
      cases op.kind <;> decide
    obtain ⟨front, first, readBefore, rfl⟩ := head n start _ spelled (by omega) between
    exact ⟨front ++ .read op :: back, _, .compared readBefore relates readAfter, by simp⟩

theorem arguments_word_of_exprs {inner : List Kind}
    (given : inner = [] ∨ ∃ first others, inner = first ++ others ∧ ExprWord first ∧
      Repeated (Opened (· = .comma) ExprWord) others) :
    ArgumentsWord (.lparen :: (inner ++ [.rparen])) := by
  intro n tokens rest same short _
  simp only [List.map_eq_cons_iff, List.map_eq_append_iff, List.map_eq_nil_iff] at same
  obtain ⟨opening, _, rfl, opens, middle, _, rfl, spelled, closing, _, rfl, closes, rfl⟩ := same
  simp only [List.length_append, List.length_cons] at short
  rcases given with rfl | ⟨first, others, rfl, head, tail⟩
  · rw [List.map_eq_nil_iff] at spelled
    exact ⟨_, _, .empty opens closes, by simp [spelled]⟩
  · rw [List.map_eq_append_iff] at spelled
    obtain ⟨start, following, rfl, spelledFirst, spelledOthers⟩ := spelled
    rw [List.length_append] at short
    have ended : NotBefore continuesExpr (closing :: rest) := by
      show continuesExpr closing.kind = false
      rw [closes]
      rfl
    have again : ∀ opening others, decide (opening.kind = .comma) = true →
        NotBefore continuesExpr (opening :: others) := by
      intro opening others opens
      show continuesExpr opening.kind = false
      rw [of_decide_eq_true opens]
      rfl
    have stops : Series (· = .comma) (fun _ => Expression n) [] (closing :: rest) [] :=
      .stop (by simp [closes])
    obtain ⟨back, values, series, covered⟩ := series_of_repeated (fun _ text word => word n) again
      tail spelledOthers (by omega) stops ended
    rw [Script.tokens_nil, List.append_nil] at covered
    have behind : NotBefore continuesExpr (back.tokens ++ closing :: rest) := by
      cases series with
      | stop _ => exact ended
      | more opens => exact again _ _ opens
    obtain ⟨front, value, read, spelledFront⟩ := head n start _ spelledFirst (by omega) behind
    refine ⟨_, _, .listed opens ?_ (.intro read series) closes, by simp [spelledFront, covered]⟩
    rw [Script.tokens_append, List.append_assoc]
    exact not_faces_of_faces (by intro kind; cases kind <;> decide) (faces_append _ (expression_starts read))

theorem factor_word_of_parts {text : List Kind}
    (meant : (∃ kind, kind.isLiteral = true ∧ text = [kind]) ∨
      (∃ inner, text = .notOp :: inner ∧ FactorWord inner) ∨
      (∃ inner, text = .lparen :: (inner ++ [.rparen]) ∧ ExprWord inner) ∨
      (∃ args, text = .ident :: args ∧ (args = [] ∨ ArgumentsWord args))) :
    FactorWord text := by
  intro n tokens rest same short right
  cases n with
  | zero => exact absurd short (Nat.not_lt_zero _)
  | succ n =>
      rcases meant with ⟨kind, isLiteral, rfl⟩ | ⟨inner, rfl, word⟩ | ⟨inner, rfl, word⟩ |
        ⟨args, rfl, rfl | word⟩
      all_goals simp only [List.map_eq_cons_iff, List.map_eq_append_iff, List.map_eq_nil_iff] at same
      · obtain ⟨token, _, rfl, rfl, rfl⟩ := same
        exact ⟨[.read token], _, .literal isLiteral, rfl⟩
      · obtain ⟨op, following, rfl, negates, same⟩ := same
        obtain ⟨script, value, read, rfl⟩ :=
          word n following rest same (Nat.lt_of_succ_lt_succ short) right
        exact ⟨.read op :: script, _, .negation negates read, rfl⟩
      · obtain ⟨opening, _, rfl, opens, middle, _, rfl, spelled, closing, _, rfl, closes, rfl⟩ := same
        simp only [List.length_append, List.length_cons] at short
        have ended : NotBefore continuesExpr (closing :: rest) := by
          show continuesExpr closing.kind = false
          rw [closes]
          rfl
        obtain ⟨script, value, read, rfl⟩ := word n middle _ spelled (by omega) ended
        exact ⟨_, _, FactorOf.parentheses opens read closes, by simp⟩
      · obtain ⟨token, _, rfl, isName, rfl⟩ := same
        have bare : NotBefore (· = .lparen) rest := right.mono fun kind faced => by
          rw [of_decide_eq_true faced]
          rfl
        exact ⟨[.read token], _, .name isName bare, rfl⟩
      · obtain ⟨token, following, rfl, isName, same⟩ := same
        obtain ⟨script, value, read, rfl⟩ :=
          word n following rest same (Nat.lt_of_succ_lt_succ short) trivial
        exact ⟨.read token :: script, _, .call isName read, rfl⟩

end TinyPascal.Grammar
