import TinyPascal.Proofs.Phrase.Follow

/-!
# Slips of style

The grammar lets four slips pass, and the parser only warns about them. Each of them shows in two
tokens that stand side by side, so they can be looked for in the plain list of tokens.
-/

namespace TinyPascal

set_option autoImplicit false

/-- The latest of the tokens passed are the keyword of a procedure and its name. -/
def namesProcedure : List Token → Bool
  | name :: keyword :: _ => name.kind = .ident && keyword.kind = .procedureKw
  | _ => false

/-- What is wrong with `first` in front of `second`. The tokens passed before them come latest
first. -/
def slip? (passed : List Token) (first second : Token) : Option Diagnostic :=
  match first.kind, second.kind with
  | .semicolon, .endKw => some (.about .warning first (.syntactic .trailingSemicolon))
  | .lparen, .rparen =>
      if namesProcedure passed then some (.about .warning second (.syntactic .emptyParameters))
      else some (.about .warning first (.syntactic .emptyArguments))
  | .endKw, .beginKw => some (.about .warning second (.syntactic .procedureEnd))
  | .endKw, .procedureKw => some (.about .warning second (.syntactic .procedureEnd))
  | _, _ => none

/-- All slips in a list of tokens, in order. -/
def slips (passed : List Token) : List Token → Diagnostics
  | first :: second :: others =>
      (slip? passed first second).toList ++ slips (first :: passed) (second :: others)
  | _ => []

@[simp]
theorem slips_nil (passed : List Token) : slips passed [] = [] := rfl

def Kind.clashes : Kind → Kind → Bool
  | .semicolon, .endKw => true
  | .lparen, .rparen => true
  | .endKw, .beginKw => true
  | .endKw, .procedureKw => true
  | _, _ => false

/-- Whether something can clash with a token of this kind in front of it. -/
def Kind.isTouchy : Kind → Bool
  | .semicolon | .lparen | .endKw => true
  | _ => false

theorem Kind.clashes_semicolon : clashes .semicolon = fun kind => decide (kind = .endKw) := by
  funext kind
  cases kind <;> rfl

theorem Kind.clashes_lparen : clashes .lparen = fun kind => decide (kind = .rparen) := by
  funext kind
  cases kind <;> rfl

theorem Kind.clashes_end_kw : clashes .endKw = endsVariables := by
  funext kind
  cases kind <;> rfl

theorem slip?_eq_none {first second : Token} (apart : first.kind.clashes second.kind = false)
    (passed : List Token) : slip? passed first second = none := by
  unfold slip?
  split
  case h_5 => rfl
  all_goals
    rename_i firstKind secondKind
    rw [firstKind, secondKind] at apart
    cases apart

namespace Script

variable {passed rest : List Token} {token : Token} {script front back : Script}

/-- Behind the tokens passed and in front of `rest`, the remarks of the script are the slips that
start in it. -/
def Tells (passed : List Token) (script : Script) (rest : List Token) : Prop :=
  slips passed (script.tokens ++ rest) =
    script.remarks ++ slips (script.tokens.reverse ++ passed) rest

theorem tells_nil : Tells passed [] rest := rfl

theorem tells_append (head : Tells passed front (back.tokens ++ rest))
    (tail : Tells (front.tokens.reverse ++ passed) back rest) : Tells passed (front ++ back) rest := by
  unfold Tells at *
  rw [tokens_append, remarks_append, List.append_assoc, head, tail, List.reverse_append,
    List.append_assoc, List.append_assoc]

theorem slips_of_apart {tokens : List Token}
    (apart : Phrase.NotBefore token.kind.clashes tokens) :
    slips passed (token :: tokens) = slips (token :: passed) tokens := by
  cases tokens with
  | nil => rfl
  | cons second others => rw [slips, slip?_eq_none apart, Option.toList_none, List.nil_append]

theorem slips_of_slip {second : Token} {others : List Token} {slip : Diagnostic}
    (found : slip? passed token second = some slip) :
    slips passed (token :: second :: others) = slip :: slips (token :: passed) (second :: others) := by
  rw [slips, found]
  rfl

theorem tells_read (apart : Phrase.NotBefore token.kind.clashes (script.tokens ++ rest))
    (tail : Tells (token :: passed) script rest) : Tells passed (.read token :: script) rest := by
  unfold Tells at *
  rw [tokens_read, remarks_read, List.cons_append, slips_of_apart apart, tail, List.reverse_cons,
    List.append_assoc, List.singleton_append]

theorem not_before_clashes (calm : token.kind.isTouchy = false) (tokens : List Token) :
    Phrase.NotBefore token.kind.clashes tokens := by
  cases tokens with
  | nil => rfl
  | cons second others =>
      rw [Phrase.NotBefore, Phrase.faces_cons]
      revert calm
      cases token.kind <;> simp [Kind.isTouchy, Kind.clashes]

theorem tells_calm (calm : token.kind.isTouchy = false) (tail : Tells (token :: passed) script rest) :
    Tells passed (.read token :: script) rest :=
  tells_read (not_before_clashes calm _) tail

theorem tells_closing (closes : token.kind = .rparen) : Tells passed [.read token] rest :=
  tells_calm (by rw [closes]; rfl) tells_nil

/-- The slip with the next token is told as soon as a token has been read. -/
theorem tells_slip {problem : SyntacticProblem} {about second : Token} {others : List Token}
    (behind : script.tokens ++ rest = second :: others)
    (found : slip? passed token second = some (.about .warning about (.syntactic problem)))
    (tail : Tells (token :: passed) script rest) :
    Tells passed (.read token :: warning about problem :: script) rest := by
  unfold Tells at *
  rw [tokens_read, tokens_warning, remarks_read, remarks_warning, List.cons_append, behind,
    slips_of_slip found, ← behind, tail, List.reverse_cons, List.append_assoc,
    List.singleton_append, List.cons_append]

/-- A slip that is told only when its second token has been read, too. -/
theorem tells_slip_late {problem : SyntacticProblem} {about second : Token}
    (found : slip? passed token second = some (.about .warning about (.syntactic problem)))
    (calm : second.kind.isTouchy = false) (tail : Tells (second :: token :: passed) script rest) :
    Tells passed (.read token :: .read second :: warning about problem :: script) rest := by
  have apart := not_before_clashes calm (script.tokens ++ rest)
  unfold Tells at *
  simp only [tokens_read, tokens_warning, remarks_read, remarks_warning, List.cons_append,
    List.reverse_cons, List.append_assoc]
  rw [slips_of_slip found, slips_of_apart apart, tail]
  rfl

end Script

namespace Phrase

variable {α : Type} {kinds stops : Kind → Bool} {item : Token → Phrase α} {script : Script}
  {rest : List Token} {values : List α}

/-- Unless it stands right behind `procedure`, the remarks of the phrase are its slips. -/
def Telling (phrase : Phrase α) : Prop :=
  ∀ script rest value passed, phrase script rest value → NotBefore (· = .procedureKw) passed →
    script.Tells passed rest

/-- A series tells its slips if its items do, each with the token that opens it, in front of
whatever may follow an item. -/
theorem tells_series (closes : List Token → Prop)
    (links : ∀ opening tokens, kinds opening.kind = true → closes (opening :: tokens))
    (each : ∀ opening script rest value passed, kinds opening.kind = true →
      item opening script rest value → closes rest → Script.Tells passed (.read opening :: script) rest)
    (series : Series kinds item script rest values) (closed : closes rest) (passed : List Token) :
    script.Tells passed rest := by
  induction series generalizing passed with
  | stop => exact Script.tells_nil
  | @more opening front back rest first others opens head tail induction =>
      have follows : closes (back.tokens ++ rest) := by
        cases tail with
        | stop => exact closed
        | more follows => exact links _ _ follows
      have told : Script.Tells passed (.read opening :: front) (back.tokens ++ rest) :=
        each _ _ _ _ _ opens head follows
      exact Script.tells_append told (induction closed _)

/-- Nothing stands in front of what follows a series but its next item. -/
theorem not_before_of_series (apart : ∀ kind, kinds kind = true → stops kind = false)
    (series : Series kinds item script rest values) (clear : NotBefore stops rest) :
    NotBefore stops (script.tokens ++ rest) := by
  cases series with
  | stop => exact clear
  | more opens => exact apart _ opens

theorem tells_links (calm : ∀ kind, kinds kind = true →
      kind.isTouchy = false ∧ decide (kind = .procedureKw) = false)
    (each : ∀ opening, (item opening).Telling) (series : Series kinds item script rest values)
    (passed : List Token) : script.Tells passed rest := by
  apply tells_series (fun _ => True) _ _ series trivial
  · exact fun _ _ _ => trivial
  · intro opening script rest value passed opens read _
    have quiet := calm _ opens
    exact Script.tells_calm quiet.1 (each _ _ _ _ _ read quiet.2)

section Expressions

variable {factor expr : Phrase Expr}

theorem telling_link {operand : Phrase Expr} (each : operand.Telling) (op : Token) :
    (Link operand op).Telling := by
  intro script rest link passed read behind
  exact each _ _ _ _ read.2 behind

theorem telling_term (each : factor.Telling) : (Term factor).Telling := by
  intro script rest value passed read behind
  rcases read with ⟨head, tail⟩
  apply Script.tells_append
  · exact each _ _ _ _ head behind
  · apply tells_links _ (telling_link each) tail
    intro kind
    cases kind <;> decide

theorem telling_simple (each : factor.Telling) : (Simple factor).Telling := by
  have terms := telling_term each
  have sums : ∀ kind : Kind, kind.isAdditive = true →
      kind.isTouchy = false ∧ decide (kind = .procedureKw) = false := by
    intro kind
    cases kind <;> decide
  intro script rest value passed read behind
  cases read with
  | unsigned _ head tail =>
      apply Script.tells_append
      · exact terms _ _ _ _ head behind
      · exact tells_links sums (telling_link terms) tail _
  | @signed sign _ _ _ _ _ isSign head tail =>
      have calm : sign.kind.isTouchy = false ∧ decide (sign.kind = .procedureKw) = false := by
        revert isSign
        cases sign.kind <;> decide
      apply Script.tells_calm calm.1
      apply Script.tells_append
      · exact terms _ _ _ _ head calm.2
      · exact tells_links sums (telling_link terms) tail _

theorem telling_whole (each : factor.Telling) : (Whole factor).Telling := by
  have simples := telling_simple each
  intro script rest value passed read behind
  cases read with
  | plain only _ => exact simples _ _ _ _ only behind
  | @compared op _ _ _ _ _ before relates after =>
      have calm : op.kind.isTouchy = false ∧ decide (op.kind = .procedureKw) = false := by
        revert relates
        cases op.kind <;> decide
      apply Script.tells_append
      · exact simples _ _ _ _ before behind
      · exact Script.tells_calm calm.1 (simples _ _ _ _ after calm.2)

theorem tells_listed {item : Phrase α} (each : item.Telling) {values : List α}
    (list : Listed item script rest values) {passed : List Token}
    (behind : NotBefore (· = .procedureKw) passed) : script.Tells passed rest := by
  rcases list with ⟨head, tail⟩
  apply Script.tells_append
  · exact each _ _ _ _ head behind
  · apply tells_links _ (fun _ => each) tail
    intro kind isComma
    rw [of_decide_eq_true isComma]
    decide

theorem names_procedure_of_not_before {name : Token} {passed : List Token}
    (behind : NotBefore (· = .procedureKw) passed) : namesProcedure (name :: passed) = false := by
  cases passed with
  | nil => rfl
  | cons keyword others =>
      have other : decide (keyword.kind = .procedureKw) = false := behind
      rw [namesProcedure, other, Bool.and_false]

/-- Empty arguments are told, unless the name in front of them is that of a procedure. -/
theorem tells_arguments (each : expr.Telling) {args : List Expr}
    (given : Arguments expr script rest args) {passed : List Token}
    (called : namesProcedure passed = false) : script.Tells passed rest := by
  cases given with
  | empty opens closes =>
      apply Script.tells_slip rfl _ (Script.tells_closing closes)
      simp [slip?, opens, closes, called]
  | @listed opening closing _ _ _ opens given list closes =>
      apply Script.tells_read
      · rw [opens, Kind.clashes_lparen]
        simpa [NotBefore] using given
      · apply Script.tells_append
        · exact tells_listed each list (not_before_of_kind opens rfl _)
        · exact Script.tells_closing closes

theorem telling_factor (n : Nat) : (Factor n).Telling := by
  induction n with
  | zero =>
      intro script rest value passed impossible
      exact impossible.elim
  | succ n induction =>
      intro script rest value passed read behind
      cases read with
      | @literal token _ isLiteral =>
          apply Script.tells_calm _ Script.tells_nil
          revert isLiteral
          cases token.kind <;> decide
      | negation negates inner =>
          apply Script.tells_calm (by rw [negates]; rfl)
          exact induction _ _ _ _ inner (not_before_of_kind negates rfl _)
      | parentheses opens inner closes =>
          apply Script.tells_read
          · rw [opens, Kind.clashes_lparen, Script.tokens_append, List.append_assoc]
            apply not_faces_of_faces _ (faces_append _ (expression_starts inner))
            intro kind
            cases kind <;> decide
          · apply Script.tells_append
            · exact telling_whole induction _ _ _ _ inner (not_before_of_kind opens rfl _)
            · exact Script.tells_closing closes
      | name isName _ => exact Script.tells_calm (by rw [isName]; rfl) Script.tells_nil
      | call isName given =>
          apply Script.tells_calm (by rw [isName]; rfl)
          apply tells_arguments (telling_whole induction) given
          exact names_procedure_of_not_before behind

theorem telling_expression (n : Nat) : (Expression n).Telling := telling_whole (telling_factor n)

end Expressions

end Phrase

end TinyPascal
