import TinyPascal.Proofs.Grammar.Readable.Expression

/-!
# Derived commands are read

An `else` is the one thing that a derivation may attach elsewhere than the parser
does. Commands are therefore taken apart once more, by whether an `else` behind
them would be theirs.
-/

namespace TinyPascal.Grammar

set_option autoImplicit false

open Phrase

def CommandsWord (text : List Kind) : Prop :=
  ∀ n, Covers (Body unbroken n) n (fun rest => faces (· = .endKw) rest = true) text

/-- Commands, told apart by whether an `else` behind them is left to others. -/
inductive Nested : Bool → List Kind → Prop where
  | assign {value : List Kind} (right : ExprWord value) : Nested true (.ident :: .assign :: value)
  | bareCall : Nested true [.ident]
  | call {args : List Kind} (given : ArgumentsWord args) : Nested true (.ident :: args)
  | block {inner : List Kind} (commands : CommandsWord inner) :
      Nested true (.beginKw :: (inner ++ [.endKw]))
  | ifThen {condition branch : List Kind} {closed : Bool} (test : ExprWord condition)
      (yes : Nested closed branch) : Nested false (.ifKw :: (condition ++ .thenKw :: branch))
  | ifElse {condition branch otherwise : List Kind} {closed : Bool} (test : ExprWord condition)
      (yes : Nested true branch) (no : Nested closed otherwise) :
      Nested closed (.ifKw :: (condition ++ .thenKw :: (branch ++ .elseKw :: otherwise)))
  | whileDo {condition body : List Kind} {closed : Bool} (test : ExprWord condition)
      (repeated : Nested closed body) : Nested closed (.whileKw :: (condition ++ .doKw :: body))
  | forDo {start bound body : List Kind} {direction : Kind} {closed : Bool}
      (begins : ExprWord start) (isTo : direction = .toKw ∨ direction = .downtoKw)
      (upTo : ExprWord bound) (repeated : Nested closed body) :
      Nested closed
        (.forKw :: .ident :: .assign :: (start ++ direction :: (bound ++ .doKw :: body)))

/-- An `else` behind a command that does not leave it to others is taken by the
last `if` inside that lacks one. -/
theorem Nested.attach {text otherwise : List Kind} {ended closed : Bool}
    (command : Nested ended text) (isOpen : ended = false) (no : Nested closed otherwise) :
    ∃ closed, Nested closed (text ++ .elseKw :: otherwise) := by
  induction command with
  | assign | bareCall | call | block => cases isOpen
  | @ifThen condition branch inner test yes attach =>
      cases inner with
      | true => exact ⟨closed, by simpa using Nested.ifElse test yes no⟩
      | false =>
          obtain ⟨inner, whole⟩ := attach rfl
          exact ⟨false, by simpa using Nested.ifThen test whole⟩
  | ifElse test yes _ _ attach =>
      obtain ⟨inner, whole⟩ := attach isOpen
      exact ⟨inner, by simpa using Nested.ifElse test yes whole⟩
  | whileDo test _ attach =>
      obtain ⟨inner, whole⟩ := attach isOpen
      exact ⟨inner, by simpa using Nested.whileDo test whole⟩
  | forDo begins isTo upTo _ attach =>
      obtain ⟨inner, whole⟩ := attach isOpen
      exact ⟨inner, by simpa using Nested.forDo begins isTo upTo whole⟩

theorem nested_if {condition branch tail : List Kind} (test : ExprWord condition)
    (yes : ∃ closed, Nested closed branch)
    (no : tail = [] ∨ ∃ otherwise, tail = .elseKw :: otherwise ∧ ∃ closed, Nested closed otherwise) :
    ∃ closed, Nested closed (.ifKw :: (condition ++ .thenKw :: (branch ++ tail))) := by
  obtain ⟨inner, yes⟩ := yes
  rcases no with rfl | ⟨otherwise, rfl, closed, no⟩
  · exact ⟨false, by simpa using Nested.ifThen test yes⟩
  · cases inner with
    | true => exact ⟨closed, .ifElse test yes no⟩
    | false =>
        obtain ⟨last, whole⟩ := yes.attach rfl no
        exact ⟨false, .ifThen test whole⟩

/-- Whatever is spelled so is read as a command, unless what stands behind it continues it. -/
def CommandWord (closed : Bool) (text : List Kind) : Prop :=
  ∀ n, Covers (SingleCommand unbroken n) n (NotBefore (continuesCommand closed)) text

section Branches

variable {closed : Bool} {condition branch otherwise value start bound body args inner : List Kind}
  {direction : Kind}

theorem not_before_expr {rest : List Token} (right : NotBefore (continuesCommand closed) rest) :
    NotBefore continuesExpr rest :=
  right.mono fun kind faced => by simp [continuesCommand, faced]

theorem command_word_assign (word : ExprWord value) :
    CommandWord true (.ident :: .assign :: value) := by
  intro n
  apply covers_of_succ
  intro n tokens rest same short right
  simp only [List.map_eq_cons_iff] at same
  obtain ⟨target, _, rfl, isName, op, following, rfl, assigns, same⟩ := same
  simp only [List.length_cons] at short
  obtain ⟨script, value, read, rfl⟩ :=
    word n following rest same (by omega) (not_before_expr right)
  exact ⟨_, _, CommandOf.assign isName assigns read, by simp⟩

theorem command_word_bare_call : CommandWord true [.ident] := by
  intro n
  apply covers_of_succ
  intro n tokens rest same short right
  simp only [List.map_eq_cons_iff, List.map_eq_nil_iff] at same
  obtain ⟨name, _, rfl, isName, rfl⟩ := same
  have noAssign : NotBefore (· = .assign) rest := right.mono fun kind faced => by
    simp [continuesCommand, of_decide_eq_true faced]
  have bare : NotBefore (· = .lparen) rest := right.mono fun kind faced => by
    rw [of_decide_eq_true faced]
    rfl
  exact ⟨_, _, CommandOf.bareCall isName noAssign bare, by simp⟩

theorem command_word_call (word : ArgumentsWord args) : CommandWord true (.ident :: args) := by
  intro n
  apply covers_of_succ
  intro n tokens rest same short right
  rw [List.map_eq_cons_iff] at same
  obtain ⟨name, following, rfl, isName, same⟩ := same
  obtain ⟨script, value, read, rfl⟩ :=
    word n following rest same (Nat.lt_of_succ_lt_succ short) trivial
  exact ⟨_, _, CommandOf.call isName read, by simp⟩

theorem command_word_block (word : CommandsWord inner) :
    CommandWord true (.beginKw :: (inner ++ [.endKw])) := by
  intro n
  apply covers_of_succ
  intro n tokens rest same short right
  simp only [List.map_eq_cons_iff, List.map_eq_append_iff, List.map_eq_nil_iff] at same
  obtain ⟨opening, _, rfl, opens, middle, _, rfl, same, closing, _, rfl, closes, rfl⟩ := same
  simp only [List.length_append, List.length_cons] at short
  obtain ⟨script, value, read, rfl⟩ :=
    word n middle (closing :: rest) same (by omega) (by simp [closes])
  exact ⟨_, _, CommandOf.block opens read closes, by simp⟩

theorem command_word_if_then (test : ExprWord condition) (yes : CommandWord closed branch) :
    CommandWord false (.ifKw :: (condition ++ .thenKw :: branch)) := by
  intro n
  apply covers_of_succ
  intro n tokens rest same short right
  simp only [List.map_eq_cons_iff, List.map_eq_append_iff] at same
  obtain ⟨keyword, _, rfl, isIf, start, _, rfl, sameTest, thenWord, following, rfl, isThen,
    same⟩ := same
  simp only [List.length_append, List.length_cons] at short
  have inner : NotBefore (continuesCommand closed) rest := right.mono continues_command_open
  have alone : NotBefore (· = .elseKw) rest := right.mono fun kind faced => by
    simp [continuesCommand, of_decide_eq_true faced]
  obtain ⟨back, branch, readBranch, rfl⟩ := yes n following rest same (by omega) inner
  obtain ⟨front, condition, readTest, rfl⟩ := test n start _ sameTest (by omega)
    (not_before_of_kind isThen rfl (back.tokens ++ rest))
  exact ⟨_, _, CommandOf.ifThen isIf readTest isThen readBranch alone, by simp⟩

theorem command_word_if_else (test : ExprWord condition) (yes : CommandWord true branch)
    (no : CommandWord closed otherwise) :
    CommandWord closed (.ifKw :: (condition ++ .thenKw :: (branch ++ .elseKw :: otherwise))) := by
  intro n
  apply covers_of_succ
  intro n tokens rest same short right
  simp only [List.map_eq_cons_iff, List.map_eq_append_iff] at same
  obtain ⟨keyword, _, rfl, isIf, start, _, rfl, sameTest, thenWord, _, rfl, isThen,
    middle, _, rfl, sameBranch, elseWord, following, rfl, isElse, same⟩ := same
  simp only [List.length_append, List.length_cons] at short
  obtain ⟨last, otherwise, readOtherwise, rfl⟩ := no n following rest same (by omega) right
  obtain ⟨back, branch, readBranch, rfl⟩ := yes n middle _ sameBranch (by omega)
    (not_before_of_kind isElse rfl (last.tokens ++ rest))
  obtain ⟨front, condition, readTest, rfl⟩ := test n start _ sameTest (by omega)
    (not_before_of_kind isThen rfl (back.tokens ++ elseWord :: (last.tokens ++ rest)))
  exact ⟨_, _, CommandOf.ifElse isIf readTest isThen readBranch isElse readOtherwise, by simp⟩

theorem command_word_while_do (test : ExprWord condition) (repeated : CommandWord closed body) :
    CommandWord closed (.whileKw :: (condition ++ .doKw :: body)) := by
  intro n
  apply covers_of_succ
  intro n tokens rest same short right
  simp only [List.map_eq_cons_iff, List.map_eq_append_iff] at same
  obtain ⟨keyword, _, rfl, isWhile, start, _, rfl, sameTest, doWord, following, rfl, isDo,
    same⟩ := same
  simp only [List.length_append, List.length_cons] at short
  obtain ⟨back, body, readBody, rfl⟩ := repeated n following rest same (by omega) right
  obtain ⟨front, condition, readTest, rfl⟩ := test n start _ sameTest (by omega)
    (not_before_of_kind isDo rfl (back.tokens ++ rest))
  exact ⟨_, _, CommandOf.whileDo isWhile readTest isDo readBody, by simp⟩

theorem command_word_for_do (begins : ExprWord start)
    (isTo : direction = .toKw ∨ direction = .downtoKw) (upTo : ExprWord bound)
    (repeated : CommandWord closed body) :
    CommandWord closed
      (.forKw :: .ident :: .assign :: (start ++ direction :: (bound ++ .doKw :: body))) := by
  intro n
  apply covers_of_succ
  intro n tokens rest same short right
  simp only [List.map_eq_cons_iff, List.map_eq_append_iff] at same
  obtain ⟨keyword, _, rfl, isFor, target, _, rfl, isName, op, _, rfl, assigns, start, _, rfl,
    sameStart, toWord, _, rfl, rfl, middle, _, rfl, sameBound, doWord, following, rfl, isDo,
    same⟩ := same
  simp only [List.length_append, List.length_cons] at short
  obtain ⟨last, body, readBody, rfl⟩ := repeated n following rest same (by omega) right
  obtain ⟨back, bound, readBound, rfl⟩ := upTo n middle _ sameBound (by omega)
    (not_before_of_kind isDo rfl (last.tokens ++ rest))
  have direction : NotBefore continuesExpr
      (toWord :: (back.tokens ++ doWord :: (last.tokens ++ rest))) := by
    rcases isTo with isTo | isTo
    · exact not_before_of_kind isTo rfl _
    · exact not_before_of_kind isTo rfl _
  obtain ⟨front, first, readStart, rfl⟩ := begins n start _ sameStart (by omega) direction
  exact ⟨_, _, CommandOf.forDo isFor isName assigns readStart isTo readBound isDo readBody,
    by simp⟩

end Branches

theorem nested_covers {closed : Bool} {text : List Kind} (nested : Nested closed text) :
    CommandWord closed text := by
  induction nested with
  | assign word => exact command_word_assign word
  | bareCall => exact command_word_bare_call
  | call word => exact command_word_call word
  | block word => exact command_word_block word
  | ifThen test _ yes => exact command_word_if_then test yes
  | ifElse test _ _ yes no => exact command_word_if_else test yes no
  | whileDo test _ repeated => exact command_word_while_do test repeated
  | forDo begins isTo upTo _ repeated => exact command_word_for_do begins isTo upTo repeated

theorem behind_covers {n : Nat} (semicolon : Token) (text : List Kind)
    (nested : ∃ closed, Nested closed text) :
    Covers (Behind (Element unbroken (SingleCommand unbroken n)) semicolon) n
      (NotBefore (continuesCommand false)) text := by
  obtain ⟨closed, nested⟩ := nested
  intro tokens rest same short right
  obtain ⟨script, value, read, spelled⟩ :=
    nested_covers nested n tokens rest same short (right.mono continues_command_open)
  refine ⟨script, some value, .inr ⟨?_, .inl ⟨value, rfl, read⟩⟩, spelled⟩
  exact not_faces_of_faces (by intro kind; cases kind <;> decide) (faces_append _ (command_starts read))

theorem commands_word_of_commands {first others last : List Kind}
    (head : ∃ closed, Nested closed first)
    (tail : Repeated (Opened (· = .semicolon) fun text => ∃ closed, Nested closed text) others)
    (closed : last = [] ∨ last = [.semicolon]) : CommandsWord (first ++ (others ++ last)) := by
  intro n tokens rest same short ended
  rw [List.map_eq_append_iff] at same
  obtain ⟨start, _, rfl, sameFirst, same⟩ := same
  rw [List.map_eq_append_iff] at same
  obtain ⟨middle, final, rfl, sameOthers, sameLast⟩ := same
  simp only [List.length_append] at short
  have again : ∀ opening others, decide (opening.kind = .semicolon) = true →
      NotBefore (continuesCommand false) (opening :: others) := by
    intro opening others opens
    exact not_before_of_kind (of_decide_eq_true opens) rfl others
  -- A semicolon before `end` is a row of its own, with nothing but a warning in it.
  obtain ⟨tailScript, values, series, rfl⟩ : ∃ script values,
      Series (· = .semicolon) (Behind (Element unbroken (SingleCommand unbroken n))) script rest values ∧
        Script.tokens script = final := by
    have stops : NotBefore (· = .semicolon) rest :=
      @not_faces_of_faces _ (· = .semicolon) _ (by intro kind; cases kind <;> decide) ended
    rcases closed with rfl | rfl
    · rw [List.map_eq_nil_iff] at sameLast
      exact ⟨[], [], .stop stops, sameLast.symm⟩
    · simp only [List.map_eq_cons_iff, List.map_eq_nil_iff] at sameLast
      obtain ⟨semicolon, _, rfl, isSemicolon, rfl⟩ := sameLast
      have remarked : Series (· = .semicolon) (Behind (Element unbroken (SingleCommand unbroken n)))
          (.read semicolon :: ([Script.warning semicolon .trailingSemicolon] ++ [])) rest [none] :=
        .more (decide_eq_true isSemicolon) (.inl ⟨ended, [], rfl, rfl, rfl⟩) (.stop stops)
      exact ⟨_, _, remarked, rfl⟩
  have after : NotBefore (continuesCommand false) (tailScript.tokens ++ rest) := by
    cases series with
    | stop _ => exact not_faces_of_faces (by intro kind; cases kind <;> decide) ended
    | more opens => exact again _ _ opens
  obtain ⟨back, _, row, covered⟩ := series_of_repeated (behind_covers (n := n)) again tail
    sameOthers (by omega) series after
  have behind : NotBefore (continuesCommand false) (back.tokens ++ rest) := by
    cases row with
    | stop _ => exact not_faces_of_faces (by intro kind; cases kind <;> decide) ended
    | more opens => exact again _ _ opens
  obtain ⟨closed, nested⟩ := head
  obtain ⟨front, value, read, rfl⟩ := nested_covers nested n start _ sameFirst (by omega)
    (behind.mono continues_command_open)
  refine ⟨_, _, Commands.some ?_ (.inl ⟨value, rfl, read⟩) row, by simp [covered]⟩
  exact not_faces_of_faces (by intro kind; cases kind <;> decide)
    (faces_append _ (command_starts read))

theorem commands_word_nil : CommandsWord [] := by
  intro n tokens rest same short ended
  rw [List.map_eq_nil_iff] at same
  exact ⟨[], [], .none ended, same.symm⟩

end TinyPascal.Grammar
