import TinyPascal.Proofs.Recovery.Broken
import TinyPascal.Proofs.Recovery.CutProgram
import TinyPascal.Proofs.Reported
import TinyPascal.Proofs.RoundTrip.Reread
import TinyPascal.Tree.Anchor

/-!
# A broken command is left out of the tree

One command of a program that was read without error is replaced by tokens that are
no command. The tree then lacks this command and nothing else, and one error is
reported.
-/

namespace TinyPascal

set_option autoImplicit false

namespace Parse

open Phrase ParseState

/-- What the rule of commands makes of `tokens`: the command, if there is one, and
the tokens left behind it. -/
def readCommand (tokens : List Token) : Option Command × List Token :=
  let start := ParseState.start (.ofTokens tokens false)
  let outcome := (Rule.command _ : Rule (start.unread.length + 1) Command).run start
    (Nat.lt_succ_self _)
  (outcome.value, outcome.state.unread.map Arrival.token)

def syntaxErrors (parse : Parse) : Diagnostics :=
  parse.diagnostics.errors.filter fun diagnostic => diagnostic.phase = .syntactic

theorem syntax_errors_eq (parse : Parse) : parse.syntaxErrors = parse.remarks.errors := by
  rw [syntaxErrors, remarks_eq, Diagnostics.ofPhase, Diagnostics.errors, Diagnostics.errors,
    List.filter_comm]

theorem length_errors_of_gists {found others : Diagnostics}
    (same : found.map Diagnostic.gist = others.map Diagnostic.gist) :
    found.errors.length = others.errors.length := by
  have count : ∀ found : Diagnostics, found.errors.length =
      ((found.map Diagnostic.gist).filter fun gist => gist.1 = .error).length := by
    intro found
    rw [List.filter_map, List.length_map]
    rfl
  rw [count, same, ← count]

theorem tokens_start_of_tokens (tokens : List Token) :
    (start (.ofTokens tokens false)).tokens = tokens ++ [.endOfFile .start] :=
  (tokens_start _).trans (Stream.tokens_of_tokens tokens false)

theorem read_command_of_phrase {n : Nat} {script : Script} {fence : List Token} {command : Command}
    (read : SingleCommand unbroken n script (fence ++ [.endOfFile .start]) command) :
    readCommand (script.tokens ++ fence) = (some command, fence) := by
  have ready := ready_start (Stream.lexical_of_tokens (script.tokens ++ fence) false)
  have offered := tokens_start_of_tokens (script.tokens ++ fence)
  rw [List.append_assoc] at offered
  have moved : SingleCommand unbroken
      ((start (.ofTokens (script.tokens ++ fence) false)).unread.length + 1) script
      (fence ++ [.endOfFile .start]) command := by
    refine moves_command n _ _ _ _ _ read ?_ rfl
    rw [unread_start]
    simp only [Stream.ofTokens, List.length_map, List.length_append]
    omega
  obtain ⟨value, follows⟩ := (Rule.command_realizes tolerated_unbroken _).complete _
    (Nat.lt_succ_self _) script _ (some command) ready offered ⟨command, rfl, moved⟩
  have left := follows.tokens_eq offered
  have ending := follows.ending
  rw [ending_start] at ending
  rw [ParseState.tokens, ending] at left
  exact Prod.ext value (List.append_cancel_right left)

theorem passed_over_of_read_command {garbage fence : List Token}
    (closed : faces Kind.endsCommand (fence ++ [.endOfFile .start]) = true)
    (isInner : ∀ token ∈ garbage, token.kind.isInner = true)
    (fails : (readCommand (garbage ++ fence)).1 = none) :
    ∃ gap, passedOver garbage (fence ++ [.endOfFile .start]) gap (fence ++ [.endOfFile .start]) ∧
      gap.tokens = garbage ∧ gap.errors.length = 1 := by
  have ready := ready_start (Stream.lexical_of_tokens (garbage ++ fence) false)
  have offered := tokens_start_of_tokens (garbage ++ fence)
  rw [List.append_assoc] at offered
  have fenced : (start (.ofTokens (garbage ++ fence) false)).Fenced (fence ++ [.endOfFile .start]) :=
    ⟨ready, closed, garbage, offered, isInner⟩
  obtain ⟨gap, tokens, errors, follows⟩ :=
    Rule.command_or_none_of_fenced fenced offered (Nat.lt_succ_self _) fails
  exact ⟨gap, ⟨rfl, tokens, _, _, _, fenced, offered, fails, follows⟩, tokens, errors⟩

theorem had_error_of_syntax_errors {source : String} (some : (ofText source).syntaxErrors ≠ []) :
    (ofText source).hadError = true := by
  apply Bool.of_not_eq_false
  intro clean
  obtain ⟨n, script, rest, read, -, performs, -⟩ := sound_of_text clean
  apply some
  rw [syntax_errors_eq, ofText, performs.remarks]
  exact (mild_program n _ _ _ read).errors

/-- Take any command of any list in a program that was read without error, and put
in its place tokens that are no command and among which there is no `;`, `begin` or
`end`. Then one error of the parser is reported, and the tree lacks this command and
nothing else. -/
theorem broken_command_is_left_out (source : String) (clean : (ofText source).hadError = false)
    (lost : Command) (tree : Program) (without : (ofText source).program.Without lost tree) :
    ∃ before command after : List Token,
      (Scan.ofText source).words = before ++ (command ++ after) ∧
      readCommand (command ++ after) = (some lost, after) ∧
      ∀ (garbage : List Token) (broken : String), garbage ≠ [] →
        (∀ token ∈ garbage, token.kind ≠ .semicolon ∧ token.kind ≠ .beginKw ∧ token.kind ≠ .endKw) →
        (readCommand (garbage ++ after)).1 = none →
        (Scan.ofText broken).words.map Token.bare =
          (before ++ (garbage ++ after)).map Token.bare →
        (ofText broken).hadError = true ∧ (ofText broken).syntaxErrors.length = 1 ∧
          (ofText broken).program.bare = tree.bare := by
  obtain ⟨n, script, rest, read, words, -, -⟩ := sound_of_text clean
  have alone : WholeProgram unbroken (script.tokens.length + 1) script
      (rest ++ [.endOfFile .start]) (ofText source).program :=
    program_before_anything read (Nat.lt_succ_self _) _
  have mild := mild_program _ _ _ _ alone
  obtain ⟨before, mid, after, rfl, ⟨k, readMid⟩, closed, rebuild⟩ := isolated_program without alone
  rw [Script.mild_append, Script.mild_append] at mild
  obtain ⟨mildBefore, -, mildAfter⟩ := mild
  rw [← List.append_assoc] at readMid closed rebuild
  refine ⟨before.tokens, mid.tokens, after.tokens ++ rest, ?_, read_command_of_phrase readMid, ?_⟩
  · rw [words]
    simp
  intro garbage broken some inside fails brokenWords
  have isInner : ∀ token ∈ garbage, token.kind.isInner = true := by
    intro token member
    exact token.kind.is_inner_iff.mpr (inside token member)
  obtain ⟨gap, passed, rfl, errors⟩ := passed_over_of_read_command closed isInner fails
  have isGap : faces Kind.isInner gap.tokens = true := by
    obtain ⟨first, others, same⟩ := List.exists_cons_of_ne_nil some
    rw [same, faces_cons]
    exact isInner first (same ▸ List.mem_cons_self)
  have left := rebuild _ (((before ++ (gap ++ after)).tokens ++ rest).length + 1) gap passed isGap
    (by rw [List.length_append]; omega)
  obtain ⟨programs, -, remarks⟩ :=
    reads_words (tolerated_passed_over closed isInner) left (by simpa using brokenWords)
  have one : (ofText broken).syntaxErrors.length = 1 := by
    rw [syntax_errors_eq, length_errors_of_gists remarks]
    show (before ++ (gap ++ after)).errors.length = 1
    rw [Script.errors_append, Script.errors_append, mildBefore.errors, mildAfter.errors,
      List.nil_append, List.append_nil, errors]
  refine ⟨had_error_of_syntax_errors ?_, one, programs⟩
  intro none
  rw [none] at one
  cases one

/-- The second of two assignments becomes garbage. -/
theorem broken_command_is_left_out_of_two :
    ∃ (source broken : String) (lost : Command) (tree : Program),
      (ofText source).hadError = false ∧ (ofText source).program.Without lost tree ∧
      (ofText broken).hadError = true ∧ (ofText broken).syntaxErrors.length = 1 ∧
      (ofText broken).program.bare = tree.bare := by
  let source := "program p; begin x := 1; y := 2 end."
  let garbage := [Token.ofText .assign ":=", Token.ofText .ident "y"]
  have clean : (ofText source).hadError = false := by decide +kernel
  have size : (ofText source).program.body.length = 2 := by decide +kernel
  obtain ⟨first, second, body⟩ := List.length_eq_two.mp size
  have cut : ∀ program : Program, program.body = [first, second] →
      program.Without second { program with body := [first] } := by
    rintro ⟨keyword, name, params, locals, procedures, opening, _⟩ rfl
    exact .body ⟨keyword, name, params, locals, procedures, opening, []⟩ (.element [first] [])
  have without := cut (ofText source).program body
  obtain ⟨before, command, after, words, read, replaced⟩ :=
    broken_command_is_left_out source clean second _ without
  -- Only the tokens from `y` on are read as the second command.
  have place : before.length = 8 := by
    have only : ∀ i : Fin 14,
        ((readCommand ((Scan.ofText source).words.drop i)).1.map Command.anchor =
          (ofText source).program.body.getLast?.map Command.anchor) → i = 8 := by
      decide +kernel
    have short : before.length < 14 := by
      have length : (Scan.ofText source).words.length = 13 := by decide +kernel
      rw [words, List.length_append] at length
      omega
    have found := only ⟨before.length, short⟩ (by
      rw [words, List.drop_left, read, body]
      rfl)
    exact congrArg Fin.val found
  have front : before = (Scan.ofText source).words.take 8 := by
    rw [words, ← place, List.take_left]
  have behind : after = (Scan.ofText source).words.drop 11 := by
    have left : (readCommand ((Scan.ofText source).words.drop 8)).2 =
        (Scan.ofText source).words.drop 11 := by decide +kernel
    rw [← left, words, ← place, List.drop_left, read]
  obtain ⟨failed, one, programs⟩ := replaced garbage "program p; begin x := 1; := y end."
    (by decide) (by decide) (by rw [behind]; decide +kernel) (by rw [front, behind]; decide +kernel)
  exact ⟨source, _, second, _, clean, without, failed, one, programs⟩

end Parse

end TinyPascal
