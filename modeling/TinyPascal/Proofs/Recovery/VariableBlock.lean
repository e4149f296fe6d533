import TinyPascal.Proofs.Grammar.Readable.Program
import TinyPascal.Proofs.Recovery.Declarations
import TinyPascal.Proofs.Recovery.Sections

/-!
# A broken block of variables

The variables of a program that was read without error are replaced by other tokens. If an error
is met among them, reading goes on at the next `procedure` or `begin`, and nothing but the
variables changes. But a block may also come to its end in front of some of the tokens, without
an error. Then `begin` is missed there, and the procedures and the body are lost.
-/

namespace TinyPascal

set_option autoImplicit false

/-- Complete declarations, and behind them a token that is no name, so that none follows them. -/
def Grammar.ClosesEarly (garbage : List Token) : Prop :=
  ∃ (declared : List Token) (next : Token) (others : List Token),
    garbage = declared ++ next :: others ∧ next.kind ≠ .ident ∧
    Derived .varDecl (.varKw :: declared.map Token.kind)

theorem Kind.ends_variables_iff {kind : Kind} :
    kind.endsVariables = true ↔ kind ∈ [Kind.procedureKw, .beginKw] := by
  cases kind <;> decide

namespace Phrase

variable {α : Type} {kinds : Kind → Bool}

theorem ended_of_series {item : Token → Phrase α} {script : Script} {rest : List Token}
    {values : List α} (series : Series kinds item script rest values) : faces kinds rest = false := by
  induction series with
  | stop ended => exact ended
  | more _ _ _ induction => exact induction

def Declares (phrase : Phrase α) : Prop :=
  ∀ script rest value, phrase script rest value → ∀ token ∈ script.tokens, token.kind.declares = true

theorem declares_series {kind : Kind} {item : Token → Phrase α} (declares : kind.declares = true)
    (each : ∀ token, Declares (item token)) : Declares (Series (· = kind) item) := by
  intro script rest values series
  induction series with
  | stop =>
      intro token none
      cases none
  | more opens head tail induction =>
      rw [Script.tokens_read, Script.tokens_append, List.forall_mem_cons, List.forall_mem_append]
      refine ⟨?_, each _ _ _ _ head, induction⟩
      rw [of_decide_eq_true opens]
      exact declares

theorem declares_name : Declares (one (· = .ident)) := by
  rintro script rest value ⟨rfl, isName⟩ token member
  rw [List.mem_singleton.mp member, of_decide_eq_true isName]
  rfl

theorem declares_variable_group (first : Token) : Declares (VariableGroup first) := by
  rintro _ rest _ ⟨⟨names, isColon, isType⟩, closes⟩
  have others := declares_series rfl (fun _ => declares_name) _ _ _ names
  simp only [Script.tokens_append, Script.tokens_read, Script.tokens_nil, List.append_assoc,
    List.cons_append, List.nil_append, List.forall_mem_append, List.forall_mem_cons]
  refine ⟨others, ?_, ?_, ?_, ?_⟩
  · rw [isColon]
    rfl
  · revert isType
    cases Token.kind _ <;> decide
  · rw [closes]
    rfl
  · intro token none
    cases none

end Phrase

namespace Step

open Phrase ParseState

variable {n : Nat} {α β : Type} {boundary garbage rest : List Token}

theorem reads_take {kinds : Kind → Bool} {token : Token} (noEnd : kinds .eof = false)
    (faced : kinds token.kind = true) :
    (take kinds : Step n (Option Token)).Reads [token] rest (just (some token)) := by
  intro s bounded ready tokens
  rcases (take_realizes noEnd).complete s bounded [.read token] rest (some token) ready tokens
    (.inr ⟨token, rfl, faced, rfl⟩) with ⟨value, follows⟩
  exact ⟨_, rfl, follows, rfl, value⟩

/-- A block of variables that does not close early is consumed, whatever it is. -/
theorem reads_variables {keyword : Token} (isVar : keyword.kind = .varKw)
    (closed : faces Kind.endsVariables boundary = true)
    (free : ∀ token ∈ garbage, token.kind.endsVariables = false)
    (late : ¬ Grammar.ClosesEarly garbage) :
    (varSection : Step n (Option Variables)).Reads (keyword :: garbage) boundary fun _ _ => True := by
  have groups : (do
      let groups ← Row.items <$> variableGroups
      recover Kind.endsVariables
      return some ⟨keyword, groups⟩ : Step n (Option Variables)).Reads garbage boundary
      fun _ _ => True := by
    have listed : Tries Kind.endsVariables boundary
        (Row.items <$> variableGroups : Step n (List Declaration)) _ anyhow :=
      tries_variable_groups apart_ends_variables
    have tries := tries_map listed fun groups => some (Variables.mk keyword groups)
    apply (tries.reads_recover rfl closed free _).weaken fun _ _ _ => trivial
    rintro script left _ same ⟨groups, ⟨faced, series⟩ | ⟨-, impossible⟩, rfl⟩
    · cases left with
      | nil => rfl
      | cons next others =>
          have derived := Grammar.var_section_derived (.some isVar faced series)
          rw [Script.kinds_read, isVar] at derived
          have notName : next.kind ≠ .ident := of_decide_eq_false (ended_of_series series)
          exact absurd ⟨script.tokens, next, others, same, notName,
            derived.resolve_left (List.cons_ne_nil _ _)⟩ late
    · exact impossible.elim
  have taken : (take (· = .varKw) : Step n (Option Token)).Reads [keyword] (garbage ++ boundary)
      (just (some keyword)) := reads_take rfl (decide_eq_true isVar)
  apply taken.bind
  rintro _ _ ⟨rfl, rfl⟩
  exact groups

theorem var_section_of_derived {keyword : Token} {declared : List Token}
    (isVar : keyword.kind = .varKw)
    (derived : Grammar.Derived .varDecl (.varKw :: declared.map Token.kind)) (rest : List Token)
    (ended : faces (· = .ident) rest = false) :
    ∃ script locals, VarSection script rest locals ∧ script.tokens = keyword :: declared := by
  have word : Grammar.VarWord (.varKw :: declared.map Token.kind) :=
    derived.means Grammar.readable_closed
  exact word _ (keyword :: declared) rest (by rw [List.map_cons, isVar]) (Nat.lt_succ_self _) ended

/-- Wherever `tokens` are ahead, the step gives a value that `said` is said of. -/
def Gives (step : Step n α) (tokens : List Token) (said : α → Prop) : Prop :=
  ∀ (s : ParseState) (bounded : s.unread.length < n), s.Ready → s.tokens = tokens →
    said (step s bounded).value

theorem Reads.gives {step : Step n α} {next : α → Step n β} {front back : List Token}
    {outcome : Diagnostics → α → Prop} {said : β → Prop} (head : step.Reads front back outcome)
    (tail : ∀ errors value, outcome errors value → (next value).Gives back said) :
    (step >>= next).Gives (front ++ back) said := by
  intro s bounded ready tokens
  rcases head s bounded ready tokens with ⟨script, rfl, follows, read⟩
  exact tail _ _ read _ (Nat.lt_of_le_of_lt (step s bounded).noMore bounded) (follows.ready ready)
    (follows.tokens_eq tokens)

theorem gives_no_body (closing : Step n Unit) (missed : faces (· = .beginKw) rest = false) :
    (body closing).Gives rest fun read => ∃ found, read = (.standIn .beginKw found, []) := by
  intro s bounded ready tokens
  rw [← tokens, s.faces_tokens] at missed
  have refused : ((Rule.expect .beginKw .bodyStart : Rule n Token).run s bounded).value = none := by
    apply expect_cases .bodyStart bounded (motive := fun opening _ => opening = none) rfl
    intro arrival others unread faced
    rw [s.current_of_unread unread, faced] at missed
    cases missed
  refine ⟨s.current, ?_⟩
  let unopened : Token × List Command := (.standIn .beginKw s.current, [])
  unfold body
  apply bind_cases current bounded (motive := fun read _ => read = unopened)
  rintro _ t below rfl rfl
  apply bind_cases (Rule.expect .beginKw .bodyStart).run below (motive := fun read _ => read = unopened)
  intro opening u further given state
  have absent : none = opening := refused.symm.trans given
  subst absent
  rfl

theorem reads_no_procedures (missed : faces (· = .procedureKw) rest = false) (more : rest ≠ []) :
    (procedures n).Reads [] rest (just []) := by
  have none : Procedures unbroken 1 [] rest [] := Series.stop missed
  exact reads_procedures rfl more none

theorem Gives.map {step : Step n α} {said : α → Prop} {other : β → Prop} (f : α → β)
    (gives : step.Gives rest said) (implies : ∀ value, said value → other (f value)) :
    (step >>= fun value => pure (f value)).Gives rest other := by
  intro s bounded ready tokens
  exact implies _ (gives s bounded ready tokens)

theorem gives_program_without_body {header vars left : List Token} {keyword name : Token}
    {locals : Option Variables}
    (head : (programHeader : Step n (Token × Token)).Reads header (vars ++ left) (just (keyword, name)))
    (declare : (varSection : Step n (Option Variables)).Reads vars left (just locals))
    (noProcedure : faces (· = .procedureKw) left = false) (noBody : faces (· = .beginKw) left = false)
    (more : left ≠ []) :
    (program n : Step n Program).Gives (header ++ (vars ++ left)) fun value => ∃ found,
      value = ⟨keyword, name, none, locals, [], .standIn .beginKw found, []⟩ := by
  unfold program
  refine head.gives ?_
  rintro _ _ ⟨rfl, rfl⟩
  refine declare.gives ?_
  rintro _ locals ⟨rfl, rfl⟩
  refine @Reads.gives n _ _ _ _ [] left _ _ (reads_no_procedures noProcedure more) ?_
  rintro _ _ ⟨rfl, rfl⟩
  refine (gives_no_body _ noBody).map (fun read =>
    Program.mk keyword name none locals [] read.1 read.2) ?_
  rintro _ ⟨found, rfl⟩
  exact ⟨found, rfl⟩

section Replaced

variable {keyword name semicolon varWord opening : Token} {garbage : List Token}
  {inner ending : Script} {nested : List Program} {list : List Command}

theorem reads_program_of_late (isProgram : keyword.kind = .programKw) (isName : name.kind = .ident)
    (closes : semicolon.kind = .semicolon) (isVar : varWord.kind = .varKw)
    (defined : Procedures unbroken n inner (ending.tokens ++ rest) nested)
    (done : BodyOf (Body unbroken n) (after (· = .dot) fun _ => silent ()) ending rest (opening, list))
    (more : rest ≠ []) (free : ∀ token ∈ garbage, token.kind.endsVariables = false)
    (late : ¬ Grammar.ClosesEarly garbage) (m : Nat) :
    (program m).Reads ([keyword, name, semicolon] ++ varWord ::
        (garbage ++ (inner.tokens ++ ending.tokens))) rest fun _ value =>
      ∃ vars, value = Program.mk keyword name none vars nested opening list := by
  have declare : (varSection : Step m (Option Variables)).Reads (varWord :: garbage)
      (inner.tokens ++ ending.tokens ++ rest) fun _ _ => True := by
    rw [List.append_assoc]
    exact reads_variables isVar (procedures_starts defined (body_of_starts done)) free late
  apply (reads_program (reads_program_header isProgram isName closes) declare
    (reads_procedures rfl (by simp [more]) defined) (reads_program_body rfl more done)).weaken
  rintro _ _ ⟨_, _, _, _, _, vars, _, rfl, ⟨rfl, same⟩, -, ⟨rfl, rfl⟩, rfl⟩
  cases same
  exact ⟨vars, rfl⟩

theorem gives_program_of_early (isProgram : keyword.kind = .programKw) (isName : name.kind = .ident)
    (closes : semicolon.kind = .semicolon) (isVar : varWord.kind = .varKw)
    (free : ∀ token ∈ garbage, token.kind.endsVariables = false)
    (early : Grammar.ClosesEarly garbage) (behind : List Token) (m : Nat) :
    (program m).Gives ([keyword, name, semicolon] ++ varWord :: (garbage ++ behind) ++ rest) fun value =>
      ∃ vars found, value = Program.mk keyword name none vars [] (.standIn .beginKw found) [] := by
  rcases early with ⟨declared, next, others, rfl, notName, derived⟩
  have inside := free next (List.mem_append_right _ List.mem_cons_self)
  rcases var_section_of_derived isVar derived (next :: (others ++ behind ++ rest)) (decide_eq_false notName)
    with ⟨block, vars, read, covered⟩
  have declare : (varSection : Step m (Option Variables)).Reads (varWord :: declared)
      (next :: (others ++ behind ++ rest)) (just vars) := by
    rw [← covered]
    exact reads_var_section rfl (List.cons_ne_nil _ _) read
  have missed : ∀ kind, kind.endsVariables = true →
      faces (· = kind) (next :: (others ++ behind ++ rest)) = false := by
    rintro kind ends
    apply decide_eq_false
    rintro rfl
    exact Bool.false_ne_true (inside.symm.trans ends)
  have gives := gives_program_without_body (reads_program_header isProgram isName closes)
    declare (missed .procedureKw rfl) (missed .beginKw rfl) (List.cons_ne_nil _ _)
  have split : [keyword, name, semicolon] ++ varWord :: (declared ++ next :: others ++ behind) ++ rest =
      [keyword, name, semicolon] ++ ((varWord :: declared) ++ next :: (others ++ behind ++ rest)) := by
    simp
  rw [split]
  intro s bounded ready tokens
  rcases gives s bounded ready tokens with ⟨found, value⟩
  exact ⟨vars, found, value⟩

end Replaced

/-- The variables of a program, up to the first `procedure` or `begin`. What stands in their place
does not matter to the rest unless it closes early. Then there is no rest. -/
theorem variables_of_program {script : Script} {whole : Program} {vars : Variables}
    (read : WholeProgram unbroken n script rest whole) (more : rest ≠ [])
    (declares : whole.locals = some vars) :
    ∃ before declared after : List Token,
      script.tokens = before ++ vars.keyword :: (declared ++ after) ∧
      (∀ token ∈ declared, token.kind.endsVariables = false) ∧
      faces Kind.endsVariables (after ++ rest) = true ∧
      ∀ garbage : List Token, (∀ token ∈ garbage, token.kind.endsVariables = false) →
        (¬ Grammar.ClosesEarly garbage → ∀ m,
          (program m).Reads (before ++ vars.keyword :: (garbage ++ after)) rest fun _ value =>
            ∃ locals, value = { whole with locals := locals }) ∧
        (Grammar.ClosesEarly garbage → ∀ m,
          (program m).Gives (before ++ vars.keyword :: (garbage ++ after) ++ rest) fun value =>
            ∃ locals found, value = { whole with
              locals := locals, procedures := [], opening := .standIn .beginKw found, body := [] }) := by
  cases read with
  | @intro keyword name semicolon opening vars inner ending _ locals procedures list isProgram isName
      closes declared defined done =>
      cases declared with
      | none => cases declares
      | @some keyword' script _ groups isVar named series =>
          rcases Option.some.inj declares with rfl
          have closed := procedures_starts defined (body_of_starts done)
          refine ⟨[keyword, name, semicolon], script.tokens, inner.tokens ++ ending.tokens, by simp,
            ?_, by simpa using closed, ?_⟩
          · intro token member
            apply apart_ends_variables
            exact declares_series rfl declares_variable_group _ _ _ series token member
          · intro garbage free
            constructor
            · exact reads_program_of_late isProgram isName closes isVar defined done more free
            · intro early
              exact gives_program_of_early isProgram isName closes isVar free early _

end Step

namespace Parse

open Phrase ParseState

theorem of_gives {source : String} {text : List Token} {said : Program → Prop}
    (gives : ∀ n, (Step.program n : Step n Program).Gives (text ++ [.endOfFile .start]) said)
    (words : (Scan.ofText source).words.map Token.bare = text.map Token.bare) :
    ∃ value, said value ∧ (ofText source).program.bare = value.bare := by
  have lexical := Stream.lexical_of_tokens text (Stream.ofText source).truncated
  have offered := Stream.tokens_of_tokens text (Stream.ofText source).truncated
  rw [← tokens_start] at offered
  have given := gives _ _ (Nat.lt_succ_self _) (ready_start lexical) offered
  rcases alike_of_same_words (Stream.same_words_of_tokens words) lexical (Stream.lexical_of_text source)
    with ⟨programs, -, -⟩
  exact ⟨_, given, programs.symm⟩

theorem ahead_of_faces {kinds : Kind → Bool} {tokens : List Token} (noEnd : kinds .eof = false)
    (faced : faces kinds (tokens ++ [.endOfFile .start]) = true) :
    ∃ next behind, tokens = next :: behind ∧ kinds next.kind = true := by
  cases tokens with
  | nil => exact absurd (noEnd.symm.trans faced) Bool.false_ne_true
  | cons next behind => exact ⟨next, behind, rfl, faced⟩

/-- Take a program that was read without error and has variables, and put other tokens between
`var` and the first `procedure` or `begin` behind it, neither of which is among them. Then nothing
but the variables changes in the tree, unless complete declarations stand in front of something
else. In that case the procedures and the body are lost. -/
theorem broken_variables_are_passed_over (source : String)
    (clean : (ofText source).hadError = false) (vars : Variables)
    (declares : (ofText source).program.locals = some vars) :
    ∃ (before declared : List Token) (next : Token) (after : List Token),
      (Scan.ofText source).words = before ++ vars.keyword :: (declared ++ next :: after) ∧
      (∀ token ∈ declared, token.kind ∉ [Kind.procedureKw, .beginKw]) ∧
      next.kind ∈ [Kind.procedureKw, .beginKw] ∧
      ∀ (garbage : List Token) (broken : String),
        (∀ token ∈ garbage, token.kind ∉ [Kind.procedureKw, .beginKw]) →
        (Scan.ofText broken).words.map Token.bare =
          (before ++ vars.keyword :: (garbage ++ next :: after)).map Token.bare →
        (¬ Grammar.ClosesEarly garbage → ∃ locals, (ofText broken).program.bare =
          ({ (ofText source).program with locals := locals } : Program).bare) ∧
        (Grammar.ClosesEarly garbage → ∃ locals found, (ofText broken).program.bare =
          ({ (ofText source).program with
            locals := locals, procedures := [], opening := .standIn .beginKw found,
            body := [] } : Program).bare) := by
  rcases program_of_clean clean with ⟨n, script, others, read, words⟩
  rcases Step.variables_of_program read (by simp) declares with
    ⟨before, declared, after, split, free, closed, change⟩
  rw [← List.append_assoc] at closed
  rcases ahead_of_faces rfl closed with ⟨next, behind, ahead, ends⟩
  refine ⟨before, declared, next, behind, ?_, ?_, Kind.ends_variables_iff.mp ends, ?_⟩
  · rw [words, split, ← ahead]
    simp
  · intro token member isEnd
    exact Bool.false_ne_true ((free token member).symm.trans (Kind.ends_variables_iff.mpr isEnd))
  intro garbage broken inner brokenWords
  rw [← ahead] at brokenWords
  have free' : ∀ token ∈ garbage, token.kind.endsVariables = false := by
    intro token member
    apply Bool.eq_false_iff.mpr
    intro ends
    exact inner token member (Kind.ends_variables_iff.mp ends)
  rcases change garbage free' with ⟨late, early⟩
  constructor
  · intro isLate
    have sameWords : (Scan.ofText broken).words.map Token.bare =
        ((before ++ vars.keyword :: (garbage ++ after)) ++ others).map Token.bare := by
      rw [brokenWords]
      simp
    rcases of_reads (late isLate) sameWords with ⟨_, _, ⟨locals, rfl⟩, programs, -⟩
    exact ⟨locals, programs⟩
  · intro isEarly
    have gives := early isEarly
    rw [← List.append_assoc] at gives
    have sameWords : (Scan.ofText broken).words.map Token.bare =
        ((before ++ vars.keyword :: (garbage ++ after)) ++ others).map Token.bare := by
      rw [brokenWords]
      simp
    rcases of_gives gives sameWords with ⟨_, ⟨locals, found, rfl⟩, programs⟩
    exact ⟨locals, found, programs⟩

theorem colon_mem_of_var_decl {text : List Kind} (derived : Grammar.Derived .varDecl text) :
    Kind.colon ∈ text := by
  have meant : Grammar.Means Grammar.Derived (Grammar.rule .varDecl) text := by
    cases derived with
    | ref body => exact body.means fun _ _ => Grammar.derived_of_means
  rcases Grammar.means_var_decl.mp meant with ⟨_, _, rfl, ⟨_, rfl, group⟩, -⟩
  rcases Grammar.means_group.mp group with ⟨_, _, rfl, -, -⟩
  simp

/-- Without its colon a declaration is passed over. With a semicolon more the body is lost. -/
theorem broken_variables_are_passed_over_or_not :
    ∃ source first second : String, (ofText source).hadError = false ∧
      (∃ locals, (ofText first).program.bare =
        ({ (ofText source).program with locals := locals } : Program).bare) ∧
      ∃ locals found, (ofText second).program.bare =
        ({ (ofText source).program with
          locals := locals, procedures := [], opening := .standIn .beginKw found,
          body := [] } : Program).bare := by
  let source := "program p; var x: integer; begin x := 1 end."
  let first := "program p; var x integer; begin x := 1 end."
  let second := "program p; var x: integer; ; begin x := 1 end."
  have clean : (ofText source).hadError = false := by decide +kernel
  have keywords : (ofText source).program.locals.map (fun vars => vars.keyword.kind) =
      some .varKw := by decide +kernel
  rcases Option.map_eq_some_iff.mp keywords with ⟨vars, declares, isVar⟩
  rcases broken_variables_are_passed_over source clean vars declares with
    ⟨before, declared, next, after, words, free, ends, replaced⟩
  have place : before.length = 3 := by
    apply length_of_split words
    rw [isVar]
    decide +kernel
  have place' : (before ++ vars.keyword :: declared).length = 8 := by
    have split : (Scan.ofText source).words = (before ++ vars.keyword :: declared) ++ next :: after := by
      rw [words, List.append_assoc, List.cons_append]
    apply length_of_split split
    rcases List.mem_pair.mp ends with isEnd | isEnd
    all_goals
      rw [isEnd]
      decide +kernel
  have front : before = (Scan.ofText source).words.take 3 := by
    rw [words, ← place, List.take_left]
  have keyword : [vars.keyword] = ((Scan.ofText source).words.drop 3).take 1 := by
    rw [words, ← place, List.drop_left]
    rfl
  have behind : next :: after = (Scan.ofText source).words.drop 8 := by
    rw [words, ← place', ← List.cons_append, ← List.append_assoc, List.drop_left]
  let names := [Token.ofText .ident "x", Token.ofText .integerKw "integer", Token.ofText .semicolon ";"]
  let group := [Token.ofText .ident "x", Token.ofText .colon ":", Token.ofText .integerKw "integer",
    Token.ofText .semicolon ";"]
  have late : ¬ Grammar.ClosesEarly names := by
    rintro ⟨complete, _, _, split, -, derived⟩
    have colon : Kind.colon ∈ names.map Token.kind := by
      rw [split, List.map_append]
      exact List.mem_append_left _
        ((List.mem_cons.mp (colon_mem_of_var_decl derived)).resolve_left (by decide))
    revert colon
    decide
  have early : Grammar.ClosesEarly (group ++ [Token.ofText .semicolon ";"]) := by
    have names : Grammar.Derived .identList [.ident] :=
      Grammar.derived_of_means (Grammar.means_ident_list.mpr ⟨[], rfl, .stop⟩)
    exact ⟨group, Token.ofText .semicolon ";", [], rfl, by decide, Grammar.derived_of_means
      (Grammar.means_var_decl.mpr ⟨[.ident, .colon, .integerKw, .semicolon], [], rfl,
        ⟨_, rfl, Grammar.means_group.mpr ⟨[.ident], .integerKw, rfl, names, rfl⟩⟩, .stop⟩)⟩
  rcases replaced names first (by decide) (by
    change _ = (before ++ ([vars.keyword] ++ (names ++ next :: after))).map Token.bare
    rw [front, keyword, behind]
    decide +kernel) with ⟨kept, -⟩
  rcases replaced (group ++ [Token.ofText .semicolon ";"]) second (by decide) (by
    change _ = (before ++ ([vars.keyword] ++ ((group ++ [Token.ofText .semicolon ";"]) ++
      next :: after))).map Token.bare
    rw [front, keyword, behind]
    decide +kernel) with ⟨-, lost⟩
  exact ⟨source, first, second, clean, kept late, lost early⟩

/-- Behind a second semicolon the body is not looked for. -/
theorem second_semicolon_loses_the_body :
    ∃ (source broken : String) (before declared garbage after : List Token) (keyword next : Token),
      (ofText source).hadError = false ∧
      (ofText source).program.locals.map Variables.keyword = some keyword ∧
      (Scan.ofText source).words = before ++ keyword :: (declared ++ next :: after) ∧
      (∀ token ∈ declared ++ garbage, token.kind ∉ [Kind.procedureKw, .beginKw]) ∧
      next.kind ∈ [Kind.procedureKw, .beginKw] ∧
      (Scan.ofText broken).words.map Token.bare =
        (before ++ keyword :: (garbage ++ next :: after)).map Token.bare ∧
      (ofText source).program.body.length = 1 ∧ (ofText broken).program.body.length = 0 := by
  let words := (Scan.ofText "program p; var x: integer; begin x := 1 end.").words
  refine ⟨"program p; var x: integer; begin x := 1 end.",
    "program p; var x: integer; ; begin x := 1 end.", words.take 3, (words.drop 4).take 4,
    (words.drop 4).take 4 ++ [.ofText .semicolon ";"], words.drop 9, words[3]!, words[8]!, ?_⟩
  decide +kernel

end Parse

end TinyPascal
