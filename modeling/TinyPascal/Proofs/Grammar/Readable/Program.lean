import TinyPascal.Proofs.Grammar.Readable.Command

/-!
# Whatever can be derived is read

Derivations keep that their words are covered, because every rule does.
-/

namespace TinyPascal.Grammar

set_option autoImplicit false

open Phrase

def anything : List Token → Prop := fun _ => True

def NamesWord : List Kind → Prop :=
  Opened (· = .ident) (Repeated (Opened (· = .comma) (· = [.ident])))

def GroupTail (text : List Kind) : Prop := ∀ n first, Covers (Group first) n anything text

def VariableTail (text : List Kind) : Prop :=
  ∀ n first, Covers (VariableGroup first) n anything text

def VarWord (text : List Kind) : Prop := ∀ n, Covers VarSection n (NotBefore (· = .ident)) text

def ParamsWord (text : List Kind) : Prop :=
  ∀ n opening, Covers (Params opening) n anything (text ++ [.rparen])

theorem group_tail_of_names {others : List Kind} {type : Kind}
    (names : Repeated (Opened (· = .comma) (· = [.ident])) others) (isType : type.isTypeName = true) :
    GroupTail (others ++ [.colon, type]) := by
  intro n first tokens rest same short _
  simp only [List.map_eq_append_iff, List.map_eq_cons_iff, List.map_eq_nil_iff] at same
  obtain ⟨start, _, rfl, same, colon, _, rfl, isColon, typeToken, _, rfl, rfl, rfl⟩ := same
  rw [List.length_append] at short
  have each : ∀ (opening : Token) (text : List Kind), text = [.ident] →
      Covers (one (· = .ident)) n anything text := by
    rintro opening _ rfl tokens rest same short _
    simp only [List.map_eq_cons_iff, List.map_eq_nil_iff] at same
    obtain ⟨name, _, rfl, isName, rfl⟩ := same
    exact ⟨[.read name], name, ⟨rfl, decide_eq_true isName⟩, rfl⟩
  have stops : Series (· = .comma) (fun _ => one (· = .ident)) [] (colon :: typeToken :: rest) [] :=
    .stop (by simp [isColon])
  obtain ⟨script, values, series, covered⟩ := series_of_repeated each (fun _ _ _ => trivial) names
    same (by omega) stops trivial
  rw [Script.tokens_nil, List.append_nil] at covered
  exact ⟨_, _, .intro series isColon isType, by simp [covered]⟩

theorem param_group_covers (n : Nat) (text : List Kind) (word : Opened (· = .ident) GroupTail text) :
    Covers ParamGroup n anything text := by
  obtain ⟨kind, tail, rfl, isName, word⟩ := word
  intro tokens rest same short _
  rw [List.map_eq_cons_iff] at same
  obtain ⟨first, following, rfl, rfl, same⟩ := same
  obtain ⟨script, declaration, read, rfl⟩ :=
    word n first following rest same (Nat.lt_of_succ_lt short) trivial
  exact ⟨_, _, .intro (of_decide_eq_true isName) read, by simp⟩

theorem variable_tail_of_group {tail : List Kind} (word : GroupTail tail) :
    VariableTail (tail ++ [.semicolon]) := by
  intro n first tokens rest same short _
  simp only [List.map_eq_append_iff, List.map_eq_cons_iff, List.map_eq_nil_iff] at same
  obtain ⟨start, _, rfl, same, semicolon, _, rfl, closes, rfl⟩ := same
  rw [List.length_append] at short
  obtain ⟨script, declaration, read, rfl⟩ :=
    word n first start (semicolon :: rest) same (by omega) trivial
  exact ⟨_, _, .intro read closes, by simp⟩

theorem var_word_of_groups {first others : List Kind}
    (head : Opened (· = .ident) VariableTail first)
    (tail : Repeated (Opened (· = .ident) VariableTail) others) :
    VarWord (.varKw :: (first ++ others)) := by
  intro n tokens rest same short right
  rw [List.map_eq_cons_iff] at same
  obtain ⟨keyword, following, rfl, isVar, same⟩ := same
  have stops : Series (· = .ident) VariableGroup [] rest [] := .stop right
  obtain ⟨script, groups, series, covered⟩ := series_of_repeated
    (fun opening text word => word n opening) (fun _ _ _ => trivial) (.more head tail) same
    (Nat.le_of_lt (Nat.lt_of_succ_lt short)) stops trivial
  rw [Script.tokens_nil, List.append_nil] at covered
  subst covered
  refine ⟨_, _, .some isVar ?_ series, by simp⟩
  obtain ⟨kind, behind, rfl, isName, -⟩ := head
  rw [List.cons_append, List.map_eq_cons_iff] at same
  obtain ⟨name, _, spelled, rfl, -⟩ := same
  rw [spelled]
  exact isName

theorem params_word_of_groups {first others : List Kind} (head : Opened (· = .ident) GroupTail first)
    (tail : Repeated (Opened (· = .semicolon) (Opened (· = .ident) GroupTail)) others) :
    ParamsWord (first ++ others) := by
  intro n opening tokens rest same short _
  simp only [List.map_eq_append_iff, List.map_eq_cons_iff, List.map_eq_nil_iff] at same
  obtain ⟨_, _, rfl, ⟨start, following, rfl, sameFirst, sameOthers⟩, closing, _, rfl, closes, rfl⟩ :=
    same
  simp only [List.length_append] at short
  have stops : Series (· = .semicolon) (fun _ => ParamGroup) [] (closing :: rest) [] :=
    .stop (by simp [closes])
  obtain ⟨back, values, series, covered⟩ := series_of_repeated
    (fun _ => param_group_covers n) (fun _ _ _ => trivial) tail sameOthers (by omega) stops trivial
  rw [Script.tokens_nil, List.append_nil] at covered
  obtain ⟨front, declaration, read, rfl⟩ := param_group_covers n first head start
    (back.tokens ++ closing :: rest) sameFirst (by omega) trivial
  exact ⟨_, _, .listed read series closes, by simp [covered]⟩

def ProcedureTail (text : List Kind) : Prop :=
  ∀ n keyword, Covers (ProcedureOf (Procedures unbroken n) (Body unbroken n) keyword) n
    behindProcedure text

def ProcedureWord : List Kind → Prop := Opened (· = .procedureKw) ProcedureTail

def ProgramWord (text : List Kind) : Prop := ∀ n, Covers (WholeProgram unbroken n) n anything text

/-- The words that each name of the grammar stands for. -/
def Readable : Nonterminal → List Kind → Prop
  | .program => ProgramWord
  | .procedure => ProcedureWord
  | .varDecl => VarWord
  | .params => ParamsWord
  | .identList => NamesWord
  | .commands => CommandsWord
  | .command => fun text => ∃ closed, Nested closed text
  | .arguments => ArgumentsWord
  | .expr => ExprWord
  | .simpleExpr => SimpleWord
  | .term => TermWord
  | .factor => FactorWord

theorem opened_of_group {text : List Kind} (meant : Means Readable Ebnf.group text) :
    Opened (· = .ident) GroupTail text := by
  obtain ⟨_, type, rfl, ⟨kind, others, rfl, isName, names⟩, isType⟩ := means_group.mp meant
  exact ⟨kind, others ++ [.colon, type], rfl, isName, group_tail_of_names names isType⟩

theorem opened_of_closed_group {text : List Kind} (meant : ClosedGroup Readable text) :
    Opened (· = .ident) VariableTail text := by
  obtain ⟨_, rfl, group⟩ := meant
  obtain ⟨kind, tail, rfl, isName, word⟩ := opened_of_group group
  exact ⟨kind, tail ++ [.semicolon], rfl, isName, variable_tail_of_group word⟩

theorem procedures_covers (n : Nat) {text : List Kind} (defined : Repeated ProcedureWord text) :
    Covers (Procedures unbroken n) n (fun rest => faces (· = .beginKw) rest = true) text := by
  apply covers_of_succ
  intro n tokens rest same short begun
  have again : ∀ opening others, decide (opening.kind = .procedureKw) = true →
      behindProcedure (opening :: others) := by
    intro opening others opens
    exact ⟨List.cons_ne_nil _ _, not_before_of_kind (of_decide_eq_true opens) rfl others⟩
  have stops : Series (· = .procedureKw) (ProcedureOf (Procedures unbroken n) (Body unbroken n))
      [] rest [] :=
    .stop (not_faces_of_faces (by intro kind; cases kind <;> decide) begun)
  have ended : behindProcedure rest := by
    constructor
    · rintro rfl
      cases begun
    · exact not_faces_of_faces (by intro kind; cases kind <;> decide) begun
  obtain ⟨script, values, series, covered⟩ := series_of_repeated
    (fun keyword text word => word n keyword) again defined same (Nat.le_of_lt_succ short) stops ended
  rw [Script.tokens_nil, List.append_nil] at covered
  exact ⟨script, values, series, covered⟩

theorem block_covers {n : Nat} {text : List Kind} (meant : Means Readable Ebnf.block text)
    {tokens rest : List Token} (same : tokens.map Token.kind = text) (short : tokens.length < n)
    {closing : Phrase Unit} {back : Script} (closes : closing back rest ()) :
    ∃ vars inner body locals programs opening list,
      VarSection vars (inner.tokens ++ (body.tokens ++ rest)) locals ∧
      Procedures unbroken n inner (body.tokens ++ rest) programs ∧
      BodyOf (Body unbroken n) closing body rest (opening, list) ∧
      vars.tokens ++ (inner.tokens ++ body.tokens) = tokens ++ back.tokens := by
  obtain ⟨varKinds, procedureKinds, commandKinds, rfl, declared, defined, done⟩ :=
    means_block.mp meant
  simp only [List.map_eq_append_iff, List.map_eq_cons_iff, List.map_eq_nil_iff] at same
  obtain ⟨varTokens, _, rfl, sameVars, procedureTokens, _, rfl, sameProcedures, opening, _, rfl,
    opens, commandTokens, _, rfl, sameCommands, endWord, _, rfl, ends, rfl⟩ := same
  simp only [List.length_append, List.length_cons] at short
  obtain ⟨front, list, readList, rfl⟩ := done n commandTokens (endWord :: (back.tokens ++ rest))
    sameCommands (by omega) (by simp [ends])
  have body : BodyOf (Body unbroken n) closing (.read opening :: (front ++ .read endWord :: back))
      rest (opening, list) := .intro opens readList ends closes
  generalize spelled : Script.tokens (.read opening :: (front ++ .read endWord :: back)) = bodyTokens
  have begun : faces (· = .beginKw) (bodyTokens ++ rest) = true := by
    rw [← spelled]
    exact decide_eq_true opens
  obtain ⟨inner, programs, readProcedures, rfl⟩ := procedures_covers n defined procedureTokens
    (bodyTokens ++ rest) sameProcedures (by omega) begun
  have defines := procedures_starts readProcedures begun
  obtain ⟨vars, locals, readVars, rfl⟩ : ∃ vars locals,
      VarSection vars (inner.tokens ++ (bodyTokens ++ rest)) locals ∧ vars.tokens = varTokens := by
    rcases declared with rfl | word
    · rw [List.map_eq_nil_iff] at sameVars
      exact ⟨[], none, .none (not_faces_of_faces (by intro kind; cases kind <;> decide) defines),
        sameVars.symm⟩
    · exact word n varTokens _ sameVars (by omega)
        (not_faces_of_faces (by intro kind; cases kind <;> decide) defines)
  subst spelled
  exact ⟨vars, inner, _, locals, programs, opening, list, readVars, readProcedures, body, by simp⟩

theorem procedure_word_of_block {params inner closing : List Kind}
    (given : params = [] ∨ ∃ listed, params = .lparen :: (listed ++ [.rparen]) ∧
      (listed = [] ∨ ParamsWord listed))
    (meant : Means Readable Ebnf.block inner) (closed : closing = [] ∨ closing = [.semicolon]) :
    ProcedureWord (.procedureKw :: .ident :: (params ++ .semicolon :: (inner ++ closing))) := by
  refine ⟨_, _, rfl, rfl, ?_⟩
  intro n keyword tokens rest same short right
  simp only [List.map_eq_append_iff, List.map_eq_cons_iff] at same
  obtain ⟨name, _, rfl, isName, paramTokens, _, rfl, sameParams, semicolon, _, rfl, closes,
    blockTokens, endTokens, rfl, sameBlock, sameEnd⟩ := same
  simp only [List.length_append, List.length_cons] at short
  obtain ⟨back, ended, rfl⟩ : ∃ back, ProcedureEnd back rest () ∧ Script.tokens back = endTokens := by
    rcases closed with rfl | rfl
    · rw [List.map_eq_nil_iff] at sameEnd
      obtain ⟨present, notSemicolon⟩ := right
      obtain ⟨next, others, rfl⟩ := List.exists_cons_of_ne_nil present
      exact ⟨_, .unclosed (of_decide_eq_false notSemicolon), sameEnd.symm⟩
    · simp only [List.map_eq_cons_iff, List.map_eq_nil_iff] at sameEnd
      obtain ⟨last, _, rfl, isLast, rfl⟩ := sameEnd
      exact ⟨_, .closed isLast, rfl⟩
  obtain ⟨vars, nested, body, locals, programs, opening, list, declared, defined, done, covered⟩ :=
    block_covers meant sameBlock (n := n) (by omega) ended
  obtain ⟨header, declarations, read, rfl⟩ : ∃ header declarations,
      OptionalParams header (semicolon :: (vars.tokens ++ (nested.tokens ++ (body.tokens ++ rest))))
        declarations ∧ header.tokens = paramTokens := by
    rcases given with rfl | ⟨listed, rfl, word⟩
    · rw [List.map_eq_nil_iff] at sameParams
      exact ⟨[], none, .inr ⟨by simp [closes], rfl, rfl⟩, sameParams.symm⟩
    · rw [List.map_eq_cons_iff] at sameParams
      obtain ⟨opening, following, rfl, opens, sameParams⟩ := sameParams
      rcases word with rfl | word
      · simp only [List.nil_append, List.map_eq_cons_iff, List.map_eq_nil_iff] at sameParams
        obtain ⟨closing, _, rfl, isClosing, rfl⟩ := sameParams
        exact ⟨_, _, .inl ⟨opening, _, rfl, decide_eq_true opens, .empty isClosing⟩, by simp⟩
      · simp only [List.length_cons] at short
        obtain ⟨script, value, read, rfl⟩ :=
          word n opening following _ sameParams (by omega) trivial
        exact ⟨_, _, .inl ⟨opening, script, rfl, decide_eq_true opens, read⟩, by simp⟩
  refine ⟨_, _, .intro (.intro isName read closes) declared defined done, ?_⟩
  simp only [Script.tokens_append, Script.tokens_read, List.append_assoc, List.cons_append,
    List.nil_append, covered]

theorem program_word_of_block {inner : List Kind} (meant : Means Readable Ebnf.block inner) :
    ProgramWord (.programKw :: .ident :: .semicolon :: (inner ++ [.dot])) := by
  intro n tokens rest same short _
  simp only [List.map_eq_append_iff, List.map_eq_cons_iff, List.map_eq_nil_iff] at same
  obtain ⟨keyword, _, rfl, isProgram, name, _, rfl, isName, semicolon, _, rfl, closes, blockTokens,
    _, rfl, sameBlock, dot, _, rfl, isDot, rfl⟩ := same
  simp only [List.length_append, List.length_cons] at short
  have ended : after (· = .dot) (fun _ => silent ()) [.read dot] rest () :=
    ⟨dot, [], rfl, decide_eq_true isDot, rfl, rfl⟩
  obtain ⟨vars, nested, body, locals, programs, opening, list, declared, defined, done, covered⟩ :=
    block_covers meant sameBlock (n := n) (by omega) ended
  refine ⟨_, _, .intro isProgram isName closes declared defined done, ?_⟩
  simp only [Script.tokens_append, Script.tokens_read, Script.tokens_nil, covered]

theorem readable_closed (name : Nonterminal) (text : List Kind)
    (meant : Means Readable (rule name) text) : Readable name text := by
  cases name with
  | program =>
      obtain ⟨inner, rfl, block⟩ := means_program.mp meant
      exact program_word_of_block block
  | procedure =>
      obtain ⟨params, inner, closing, rfl, given, block, closed⟩ := means_procedure.mp meant
      exact procedure_word_of_block given block closed
  | varDecl =>
      obtain ⟨first, others, rfl, head, tail⟩ := means_var_decl.mp meant
      exact var_word_of_groups (opened_of_closed_group head)
        (tail.mono fun text => opened_of_closed_group)
  | params =>
      obtain ⟨first, others, rfl, head, tail⟩ := means_params.mp meant
      refine params_word_of_groups (opened_of_group head) (tail.mono ?_)
      rintro _ ⟨kind, behind, rfl, opens, group⟩
      exact ⟨kind, behind, rfl, opens, opened_of_group group⟩
  | identList =>
      obtain ⟨others, rfl, names⟩ := means_ident_list.mp meant
      exact ⟨_, others, rfl, rfl, names⟩
  | commands =>
      rcases means_commands.mp meant with rfl | ⟨first, others, last, rfl, head, tail, closed⟩
      · exact commands_word_nil
      · exact commands_word_of_commands head tail closed
  | command =>
      rcases means_command.mp meant with ⟨value, rfl, right⟩ | ⟨args, rfl, rfl | given⟩ |
        ⟨inner, rfl, commands⟩ | ⟨condition, branch, tail, rfl, test, yes, no⟩ |
        ⟨condition, body, rfl, test, closed, repeated⟩ |
        ⟨start, direction, bound, body, rfl, begins, isTo, upTo, closed, repeated⟩
      · exact ⟨true, .assign right⟩
      · exact ⟨true, .bareCall⟩
      · exact ⟨true, .call given⟩
      · exact ⟨true, .block commands⟩
      · exact nested_if test yes no
      · exact ⟨closed, .whileDo test repeated⟩
      · exact ⟨closed, .forDo begins isTo upTo repeated⟩
  | arguments =>
      obtain ⟨inner, rfl, given⟩ := means_arguments.mp meant
      exact arguments_word_of_exprs given
  | expr =>
      obtain ⟨left, tail, rfl, head, compared⟩ := means_expr.mp meant
      exact expr_word_of_simples head compared
  | simpleExpr =>
      obtain ⟨sign, first, others, rfl, signed, head, tail⟩ := means_simple_expr.mp meant
      exact simple_word_of_terms signed head tail
  | term =>
      obtain ⟨first, others, rfl, head, tail⟩ := means_term.mp meant
      exact term_word_of_factors head tail
  | factor => exact factor_word_of_parts (means_factor.mp meant)

theorem program_readable {tokens : List Token} (derived : Derived .program (tokens.map Token.kind))
    {n : Nat} (short : tokens.length < n) (rest : List Token) :
    ∃ script value, WholeProgram unbroken n script rest value ∧ script.tokens = tokens :=
  derived.means readable_closed n tokens rest rfl short trivial

end TinyPascal.Grammar
