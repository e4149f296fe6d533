import TinyPascal.Proofs.Outcome
import TinyPascal.Proofs.Phrase.Locality
import TinyPascal.Proofs.Recovery.Sections
import TinyPascal.Proofs.Style.Slips

/-!
# Which warnings a valid text gets

Where nothing is broken, all that is reported are warnings about style. Going through the phrases
of the language one by one shows that they are the slips in the tokens consumed.
-/

namespace TinyPascal

set_option autoImplicit false

namespace Phrase

variable {script : Script} {rest passed : List Token}

section Declarations

theorem telling_one {kinds : Kind → Bool} (calm : ∀ kind, kinds kind = true → kind.isTouchy = false) :
    (one kinds).Telling := by
  intro script rest value passed read behind
  rcases read with ⟨rfl, isKind⟩
  exact Script.tells_calm (calm _ isKind) Script.tells_nil

theorem tells_group {first : Token} {declaration : Declaration}
    (group : Group first script rest declaration) (passed : List Token) : script.Tells passed rest := by
  cases group with
  | @intro colon type _ _ _ names isColon isType =>
      have calmType : type.kind.isTouchy = false := by
        revert isType
        cases type.kind <;> decide
      apply Script.tells_append
      · apply tells_links _ (fun _ => telling_one _) names
        · intro kind isComma
          rw [of_decide_eq_true isComma]
          decide
        · intro _ kind isName
          rw [of_decide_eq_true isName]
          rfl
      · apply Script.tells_calm (by rw [isColon]; rfl)
        exact Script.tells_calm calmType Script.tells_nil

theorem tells_param_group {declaration : Declaration}
    (group : ParamGroup script rest declaration) (passed : List Token) : script.Tells passed rest := by
  rcases group with ⟨isName, group⟩
  exact Script.tells_calm (by rw [isName]; rfl) (tells_group group _)

/-- A semicolon is told only in front of `end`. -/
theorem tells_semicolon {semicolon : Token} (isSemicolon : semicolon.kind = .semicolon)
    (apart : NotBefore (· = .endKw) (script.tokens ++ rest))
    (tail : script.Tells (semicolon :: passed) rest) :
    Script.Tells passed (.read semicolon :: script) rest := by
  apply Script.tells_read _ tail
  rw [isSemicolon, Kind.clashes_semicolon]
  exact apart

theorem tells_variable_group {first : Token} {declaration : Declaration}
    (group : VariableGroup first script rest declaration) (clear : NotBefore (· = .endKw) rest)
    (passed : List Token) : script.Tells passed rest := by
  rcases group with ⟨group, closes⟩
  apply Script.tells_append
  · exact tells_group group _
  · exact tells_semicolon closes clear Script.tells_nil

theorem tells_var_section {locals : Option Variables} (declared : VarSection script rest locals)
    (clear : NotBefore (· = .endKw) rest) (passed : List Token) : script.Tells passed rest := by
  cases declared with
  | none => exact Script.tells_nil
  | some isVar _ groups =>
      apply Script.tells_calm (by rw [isVar]; rfl)
      apply tells_series (NotBefore (· = .endKw)) _ _ groups clear
      · intro opening tokens isName
        exact not_before_of_kind (of_decide_eq_true isName) rfl _
      · intro opening script rest value passed isName group clear
        apply Script.tells_calm (by rw [of_decide_eq_true isName]; rfl)
        exact tells_variable_group group clear _

end Declarations

section Commands

/-- Wherever a command may end, its remarks are its slips. -/
def TellingCommand (command : Phrase Command) : Prop :=
  ∀ script rest value passed, command script rest value → NotBefore (· = .procedureKw) passed →
    NotBefore Kind.endsVariables rest → script.Tells passed rest

theorem not_before_of_end (ended : faces (· = .endKw) rest = true) :
    NotBefore Kind.endsVariables rest := by
  apply not_faces_of_faces _ ended
  intro kind isEnd
  rw [of_decide_eq_true isEnd]
  rfl

theorem tells_behind {n : Nat} (each : TellingCommand (SingleCommand unbroken n)) {semicolon : Token}
    {value : Option Command} (isSemicolon : semicolon.kind = .semicolon)
    (read : Behind (Element unbroken (SingleCommand unbroken n)) semicolon script rest value)
    (clear : NotBefore Kind.endsVariables rest) (passed : List Token) :
    Script.Tells passed (.read semicolon :: script) rest := by
  rcases read with ⟨ended, back, rfl, rfl, -⟩ | ⟨apart, ⟨command, -, read⟩ | ⟨impossible, -⟩⟩
  · rw [Script.tokens_warning, Script.tokens_nil, List.nil_append] at ended
    cases rest with
    | nil => cases ended
    | cons endWord others =>
        have isEnd : endWord.kind = .endKw := of_decide_eq_true ended
        apply Script.tells_slip rfl _ Script.tells_nil
        simp [slip?, isSemicolon, isEnd]
  · apply tells_semicolon isSemicolon apart
    exact each _ _ _ _ read (not_before_of_kind isSemicolon rfl _) clear
  · exact impossible.elim

theorem tells_commands {n : Nat} (each : TellingCommand (SingleCommand unbroken n))
    {list : List Command} (read : Body unbroken n script rest list)
    (ended : faces (· = .endKw) rest = true) (behind : NotBefore (· = .procedureKw) passed) :
    script.Tells passed rest := by
  have clear := not_before_of_end ended
  cases read with
  | none => exact Script.tells_nil
  | some _ head tail =>
      rcases head with ⟨first, -, read⟩ | ⟨impossible, -⟩
      · apply Script.tells_append
        · apply each _ _ _ _ read behind
          apply not_before_of_series _ tail clear
          intro kind isSemicolon
          rw [of_decide_eq_true isSemicolon]
          rfl
        · apply tells_series (NotBefore Kind.endsVariables) _ _ tail clear
          · intro opening tokens isSemicolon
            exact not_before_of_kind (of_decide_eq_true isSemicolon) rfl _
          · intro semicolon script rest value passed isSemicolon read clear
            exact tells_behind each (of_decide_eq_true isSemicolon) read clear _
      · exact impossible.elim

theorem tells_end {endWord : Token} (isEnd : endWord.kind = .endKw)
    (clear : NotBefore Kind.endsVariables (script.tokens ++ rest))
    (tail : script.Tells (endWord :: passed) rest) :
    Script.Tells passed (.read endWord :: script) rest := by
  apply Script.tells_read _ tail
  rw [isEnd, Kind.clashes_end_kw]
  exact clear

/-- An expression between two words that clash with nothing, and what stands behind it. -/
theorem tells_between {n : Nat} {keyword word : Token} {front back : Script} {value : Expr}
    (calm : keyword.kind.isTouchy = false)
    (apart : NotBefore (· = .procedureKw) (keyword :: passed))
    (read : Expression n front (word :: (back.tokens ++ rest)) value)
    (calm' : word.kind.isTouchy = false)
    (tail : back.Tells (word :: (front.tokens.reverse ++ keyword :: passed)) rest) :
    Script.Tells passed (.read keyword :: (front ++ .read word :: back)) rest := by
  apply Script.tells_calm calm
  apply Script.tells_append
  · exact telling_expression n _ _ _ _ read apart
  · exact Script.tells_calm calm' tail

theorem telling_command (n : Nat) : TellingCommand (SingleCommand unbroken n) := by
  induction n with
  | zero =>
      intro script rest value passed impossible
      exact impossible.elim
  | succ n induction =>
      have exprs := telling_expression n
      intro script rest value passed read behind clear
      cases read with
      | assign isName assigns right =>
          apply Script.tells_calm (by rw [isName]; rfl)
          apply Script.tells_calm (by rw [assigns]; rfl)
          exact exprs _ _ _ _ right (not_before_of_kind assigns rfl _)
      | bareCall isName _ _ => exact Script.tells_calm (by rw [isName]; rfl) Script.tells_nil
      | call isName given =>
          apply Script.tells_calm (by rw [isName]; rfl)
          exact tells_arguments exprs given (names_procedure_of_not_before behind)
      | block opens inner closes =>
          apply Script.tells_calm (by rw [opens]; rfl)
          apply Script.tells_append
          · apply tells_commands induction inner _ (not_before_of_kind opens rfl _)
            exact decide_eq_true closes
          · exact tells_end closes clear Script.tells_nil
      | ifThen isIf test isThen yes _ =>
          apply tells_between (by rw [isIf]; rfl) (not_before_of_kind isIf rfl _) test
            (by rw [isThen]; rfl)
          exact induction _ _ _ _ yes (not_before_of_kind isThen rfl _) clear
      | ifElse isIf test isThen yes isElse no =>
          apply tells_between (by rw [isIf]; rfl) (not_before_of_kind isIf rfl _) (by simpa using test)
            (by rw [isThen]; rfl)
          apply Script.tells_append
          · exact induction _ _ _ _ yes (not_before_of_kind isThen rfl _)
              (not_before_of_kind isElse rfl _)
          · apply Script.tells_calm (by rw [isElse]; rfl)
            exact induction _ _ _ _ no (not_before_of_kind isElse rfl _) clear
      | whileDo isWhile test isDo repeated =>
          apply tells_between (by rw [isWhile]; rfl) (not_before_of_kind isWhile rfl _) test
            (by rw [isDo]; rfl)
          exact induction _ _ _ _ repeated (not_before_of_kind isDo rfl _) clear
      | @forDo _ _ _ toWord _ _ _ _ _ _ _ _ isFor isName assigns begins isTo upTo isDo repeated =>
          have calm : toWord.kind.isTouchy = false ∧ decide (toWord.kind = .procedureKw) = false := by
            rcases isTo with isTo | isTo
            · rw [isTo]
              decide
            · rw [isTo]
              decide
          apply Script.tells_calm (by rw [isFor]; rfl)
          apply Script.tells_calm (by rw [isName]; rfl)
          apply tells_between (by rw [assigns]; rfl) (not_before_of_kind assigns rfl _)
            (by simpa using begins) calm.1
          apply Script.tells_append
          · exact exprs _ _ _ _ upTo calm.2
          · apply Script.tells_calm (by rw [isDo]; rfl)
            exact induction _ _ _ _ repeated (not_before_of_kind isDo rfl _) clear

end Commands

section Programs

theorem not_before_end_of_sections (begun : faces Kind.endsHeader rest = true) :
    NotBefore (· = .endKw) rest := by
  apply not_faces_of_faces _ begun
  intro kind
  cases kind <;> decide

theorem tells_listed_params {opening closing : Token} {front back : Script} {first : Declaration}
    {others : List Declaration} (opens : opening.kind = .lparen)
    (head : ParamGroup front (back.tokens ++ closing :: rest) first)
    (tail : Series (· = .semicolon) (fun _ => ParamGroup) back (closing :: rest) others)
    (closes : closing.kind = .rparen) (passed : List Token) :
    Script.Tells passed (.read opening :: (front ++ (back ++ [.read closing]))) rest := by
  have named : ∀ {script : Script} {behind : List Token} {group : Declaration} (tokens : List Token),
      ParamGroup script behind group → faces (· = .ident) (script.tokens ++ tokens) = true := by
    intro script behind group tokens read
    rcases read with ⟨isName, -⟩
    exact decide_eq_true isName
  apply Script.tells_read
  · rw [opens, Kind.clashes_lparen, Script.tokens_append, List.append_assoc]
    apply not_faces_of_faces _ (named _ head)
    intro kind isName
    rw [of_decide_eq_true isName]
    rfl
  · apply Script.tells_append
    · rw [Script.tokens_append, List.append_assoc]
      exact tells_param_group head _
    · apply Script.tells_append
      · apply tells_series (fun _ => True) (fun _ _ _ => trivial) _ tail trivial
        intro semicolon script rest group passed isSemicolon read _
        apply tells_semicolon (of_decide_eq_true isSemicolon) _ (tells_param_group read _)
        apply not_faces_of_faces _ (named _ read)
        intro kind isName
        rw [of_decide_eq_true isName]
        rfl
      · exact Script.tells_closing closes

theorem tells_optional_params {params : Option Variables}
    (given : OptionalParams script rest params) (named : namesProcedure passed = true) :
    script.Tells passed rest := by
  rcases given with ⟨opening, back, rfl, opens, listed⟩ | ⟨-, rfl, -⟩
  · have isOpening : opening.kind = .lparen := of_decide_eq_true opens
    cases listed with
    | @empty closing _ closes =>
        apply Script.tells_slip_late _ (by rw [closes]; rfl) Script.tells_nil
        simp [slip?, isOpening, closes, named]
    | listed head tail closes => exact tells_listed_params isOpening head tail closes _
  · exact Script.tells_nil

theorem tells_procedure_header {header : Token × Option Variables}
    (head : ProcedureHeader script rest header) (behind : faces (· = .procedureKw) passed = true)
    (begun : faces Kind.endsHeader rest = true) : script.Tells passed rest := by
  cases head with
  | @intro name semicolon _ _ _ isName given closes =>
      have named : namesProcedure (name :: passed) = true := by
        cases passed with
        | nil => cases behind
        | cons keyword others =>
            have isKeyword : keyword.kind = .procedureKw := of_decide_eq_true behind
            simp [namesProcedure, isName, isKeyword]
      apply Script.tells_calm (by rw [isName]; rfl)
      apply Script.tells_append
      · exact tells_optional_params given named
      · exact tells_semicolon closes (not_before_end_of_sections begun) Script.tells_nil

theorem tells_body_of {n : Nat} {closing : Phrase Unit} {read : Token × List Command}
    (ends : ∀ endWord script passed, endWord.kind = .endKw → closing script rest () →
      Script.Tells passed (.read endWord :: script) rest)
    (done : BodyOf (Body unbroken n) closing script rest read) (passed : List Token) :
    script.Tells passed rest := by
  cases done with
  | intro opens inner isEnd closes =>
      apply Script.tells_calm (by rw [opens]; rfl)
      apply Script.tells_append
      · apply tells_commands (telling_command n) inner _ (not_before_of_kind opens rfl _)
        exact decide_eq_true isEnd
      · exact ends _ _ _ isEnd closes

/-- The semicolon behind a procedure stands there, or the slip shows at what stands there
instead. -/
theorem tells_procedure_end {endWord : Token} (isEnd : endWord.kind = .endKw)
    (closes : ProcedureEnd script rest ()) (begun : faces Kind.endsVariables rest = true) :
    Script.Tells passed (.read endWord :: script) rest := by
  cases closes with
  | closed isSemicolon =>
      apply tells_end isEnd (not_before_of_kind isSemicolon rfl _)
      apply tells_semicolon isSemicolon _ Script.tells_nil
      apply not_faces_of_faces _ begun
      intro kind
      cases kind <;> decide
  | @unclosed next others _ =>
      apply Script.tells_slip rfl _ Script.tells_nil
      have starts : next.kind.endsVariables = true := begun
      unfold slip?
      rw [isEnd]
      revert starts
      cases next.kind <;> simp [Kind.endsVariables]

theorem tells_sections {n : Nat} {vars inner : Script} {ending : List Token}
    {locals : Option Variables} {procedures : List Program}
    (each : ∀ passed, inner.Tells passed ending)
    (declared : VarSection vars (inner.tokens ++ ending) locals)
    (defined : Procedures unbroken n inner ending procedures)
    (begun : faces (· = .beginKw) ending = true) (passed : List Token) :
    (vars ++ inner).Tells passed ending := by
  apply Script.tells_append
  · apply tells_var_section declared
    apply not_faces_of_faces _ (procedures_starts defined begun)
    intro kind
    cases kind <;> decide
  · exact each _

theorem tells_procedures (n : Nat) {values : List Program}
    (defined : Procedures unbroken n script rest values)
    (begun : faces (· = .beginKw) rest = true) (passed : List Token) : script.Tells passed rest := by
  induction n generalizing script rest values passed with
  | zero => exact defined.elim
  | succ n induction =>
      apply tells_series (fun rest => faces Kind.endsVariables rest = true) _ _ defined
      · apply faces_mono _ begun
        intro kind isBegin
        rw [of_decide_eq_true isBegin]
        rfl
      · intro opening tokens isProcedure
        rw [faces_cons, of_decide_eq_true isProcedure]
        rfl
      · intro keyword script rest value passed isProcedure read follows
        have isKeyword : keyword.kind = .procedureKw := of_decide_eq_true isProcedure
        apply Script.tells_calm (by rw [isKeyword]; rfl)
        cases read with
        | intro head declared nested done =>
            have begun := body_of_starts done
            have behind : faces (· = .procedureKw) (keyword :: passed) = true := isProcedure
            apply Script.tells_append
            · simp only [Script.tokens_append, List.append_assoc]
              exact tells_procedure_header head behind (sections_start declared nested begun)
            · rw [← List.append_assoc]
              apply Script.tells_append
              · exact tells_sections (induction nested begun) declared nested begun _
              · apply tells_body_of _ done
                intro endWord script passed isEnd closes
                exact tells_procedure_end isEnd closes follows

theorem tells_point {endWord : Token} (isEnd : endWord.kind = .endKw)
    (closes : after (· = .dot) (fun _ => silent ()) script rest ()) :
    Script.Tells passed (.read endWord :: script) rest := by
  rcases closes with ⟨point, _, rfl, isPoint, rfl, -⟩
  have isDot : point.kind = .dot := of_decide_eq_true isPoint
  apply tells_end isEnd (not_before_of_kind isDot rfl _)
  exact Script.tells_calm (by rw [isDot]; rfl) Script.tells_nil

theorem tells_program {n : Nat} {value : Program}
    (read : WholeProgram unbroken n script rest value) : script.Tells [] rest := by
  cases read with
  | intro isProgram isName closes declared defined done =>
      have begun := body_of_starts done
      apply Script.tells_calm (by rw [isProgram]; rfl)
      apply Script.tells_calm (by rw [isName]; rfl)
      apply tells_semicolon closes
      · simp only [Script.tokens_append, List.append_assoc]
        exact not_before_end_of_sections (sections_start declared defined begun)
      · rw [← List.append_assoc]
        apply Script.tells_append
        · exact tells_sections (tells_procedures n defined begun) declared defined begun _
        · exact tells_body_of (fun _ _ _ => tells_point) done _

end Programs

end Phrase

namespace Parse

open Phrase

/-- What a text without error is warned about are the slips in the tokens consumed: a semicolon in
front of `end`, at the semicolon; empty parentheses, behind the name of a procedure that is declared
at the closing one and everywhere else at the opening one; and `end` in front of `begin` or
`procedure`, at the latter. Nothing else is reported. -/
theorem warnings_are_the_slips (source : String) (clean : (ofText source).hadError = false) :
    (ofText source).diagnostics = slips [] (ofText source).recorder.tokens ∧
      SyntacticProblem.trailingSemicolon.message = "Remove the ';'." ∧
      SyntacticProblem.emptyParameters.message =
        "Procedures declared without args don't need '()'." ∧
      SyntacticProblem.emptyArguments.message =
        "Procedure calls without args are made without '()'" ∧
      SyntacticProblem.procedureEnd.message = "Expected ';' after procedure end." := by
  rcases sound_of_text clean with ⟨n, script, rest, read, words, performs, quiet⟩
  have consumed : (ofText source).recorder.tokens = script.tokens := performs.consumed
  have reported : (ofText source).diagnostics = script.remarks := performs.diagnostics quiet
  -- What stands behind the point plays no part, so nothing need stand there.
  have alone : WholeProgram unbroken _ script [] _ :=
    program_before_anything read (Nat.lt_succ_self _) []
  have told : slips [] script.tokens = script.remarks := by
    have tells := tells_program alone
    unfold Script.Tells at tells
    rwa [List.append_nil, slips_nil, List.append_nil] at tells
  rw [consumed, reported, told]
  exact ⟨rfl, rfl, rfl, rfl, rfl⟩

/-- All four slips in one text, and a call whose parentheses are not empty. -/
theorem each_slip_is_warned_about :
    (ofText "program p; procedure q(); begin end begin x := q(); r(1); end.").hadError = false ∧
      (ofText "program p; procedure q(); begin end begin x := q(); r(1); end.").diagnostics.map
          (fun found => (found.column, found.message)) =
        [(24, "Procedures declared without args don't need '()'."),
          (37, "Expected ';' after procedure end."),
          (49, "Procedure calls without args are made without '()'"), (57, "Remove the ';'.")] := by
  have clean : (ofText
      "program p; procedure q(); begin end begin x := q(); r(1); end.").hadError = false := by
    decide +kernel
  have told := (warnings_are_the_slips _ clean).1
  apply And.intro clean
  rw [told]
  decide +kernel

end Parse

end TinyPascal
