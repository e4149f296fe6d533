import TinyPascal.Proofs.Spelling.Classes

/-!
# The longest match

Whatever stands at a place of a text, a token that is read there is the longest lexeme at that
place, and has the kind of its class. One strange character is read where no class has a lexeme.
-/

namespace TinyPascal

set_option autoImplicit false

namespace Lexeme

variable {kind : Kind} {text cs : List Char} {c : Char}

theorem comment_of_belongs (belongs : Belongs kind ('{' :: cs)) :
    kind = .comment ∧ ∃ body, cs = body ++ ['}'] ∧ '}' ∉ body := by
  generalize same : '{' :: cs = text at belongs
  cases belongs with
  | comment unclosed =>
      cases same
      exact ⟨rfl, _, rfl, unclosed⟩
  | reserved isWord _ | name isWord _ =>
      rcases isWord with ⟨first, others, rfl, letter, -⟩
      cases same
      exact absurd letter (by decide)
  | whole isWhole =>
      rcases isWhole.eq_cons with ⟨first, others, rfl, digit, -⟩
      cases same
      exact absurd digit (by decide)
  | fraction front =>
      rcases front.eq_cons with ⟨first, others, rfl, digit, -⟩
      cases same
      exact absurd digit (by decide)
  | operator listed =>
      rcases symbols_of_operator listed with ⟨first, others, rfl, -, -, -, -, notOpening⟩
      cases same
      contradiction

theorem unclosed_of_close_comment {body behind rest : List Char}
    (closed : closeComment rest = some (body, behind)) :
    ∃ inner, body = inner ++ ['}'] ∧ '}' ∉ inner := by
  unfold closeComment at closed
  split at closed
  · cases closed
  · next brace _ found =>
    cases closed
    have closing := List.head_dropWhile_not (fun c => c != '}') (l := rest) (by simp [found])
    simp only [found, List.head_cons, bne_eq_false_iff_eq] at closing
    rw [closing]
    refine ⟨_, rfl, ?_⟩
    intro member
    exact absurd (List.mem_takeWhile_imp member) (by decide)

theorem longest_comment {body behind rest : List Char}
    (closed : closeComment rest = some (body, behind)) :
    Longest .comment ('{' :: body) ('{' :: rest) := by
  have whole := close_comment_append closed
  rcases unclosed_of_close_comment closed with ⟨inner, rfl, unclosed⟩
  apply Longest.mk
  · exact .comment unclosed
  · exact ⟨behind, congrArg (List.cons '{') whole⟩
  · intro other longer belongs stands
    cases longer with
    | nil => exact Nat.zero_le _
    | cons c text =>
        rcases List.cons_prefix_cons.mp stands with ⟨rfl, tail, same⟩
        rcases comment_of_belongs belongs with ⟨-, shorter, rfl, free⟩
        rw [List.append_assoc] at same
        have again : closeComment (shorter ++ '}' :: tail) = some (shorter ++ ['}'], tail) :=
          close_comment_of_closed free tail
        rw [show shorter ++ '}' :: tail = rest from same, closed] at again
        rw [Option.some.injEq, Prod.mk.injEq] at again
        rw [again.1]
  · intro other belongs
    exact (comment_of_belongs belongs).1

theorem longest_cut (notOpening : c ≠ '{') (notFiller : isFiller c = false)
    (known : (cut c cs).kind ≠ .unknown) :
    Longest (cut c cs).kind (cut c cs).text (c :: cs) := by
  have stands : (cut c cs).text <+: c :: cs := ⟨_, cut_append c cs⟩
  apply Longest.mk
  · exact (written_of_cut notFiller notOpening known).belongs
  · exact stands
  · intro other longer belongs stands
    exact (tops_of_belongs belongs stands notOpening).reaches
  · intro other belongs
    exact (tops_of_belongs belongs stands notOpening).same rfl

theorem text_of_unknown (unknown : (cut c cs).kind = .unknown) : (cut c cs).text = [c] := by
  unfold cut at unknown ⊢
  split
  · next letter =>
    rw [if_pos letter] at unknown
    exact absurd unknown (Kind.of_word_ne_unknown _)
  · next notLetter =>
    rw [if_neg notLetter] at unknown
    split
    · next digit =>
      rw [if_pos digit] at unknown
      unfold number at unknown
      split at unknown
      · split at unknown <;> cases unknown
      · cases unknown
    · next notDigit =>
      rw [if_neg notDigit] at unknown
      unfold symbol at unknown ⊢
      split
      · rfl
      · split
        · next joined =>
          simp only [joined] at unknown
          exact absurd unknown (pair_kind_ne_unknown joined)
        · rfl

end Lexeme

/-- The token is the longest lexeme at the head of `behind`, or one character where no class has
a lexeme. -/
structure Token.IsLongestMatch (token : Token) (behind : List Char) : Prop where
  known : token.kind ≠ .unknown → Lexeme.Longest token.kind token.lexeme.toList behind
  strange : token.kind = .unknown ↔ ∀ kind text, Lexeme.Belongs kind text → ¬ text <+: behind
  single : token.kind = .unknown → ∃ c rest, behind = c :: rest ∧ token.lexeme.toList = [c]

namespace Reading

open Lexeme

theorem is_longest_match_cut {c : Char} {cs : List Char} {here : Position} (notOpening : c ≠ '{')
    (notFiller : isFiller c = false) :
    Token.IsLongestMatch ⟨(cut c cs).kind, String.ofList (cut c cs).text, here⟩ (c :: cs) := by
  apply Token.IsLongestMatch.mk
  · rw [String.toList_ofList]
    exact longest_cut notOpening notFiller
  · constructor
    · intro unknown kind text belongs stands
      exact (tops_of_belongs belongs stands notOpening).known unknown
    · intro none
      by_contra known
      have longest := longest_cut notOpening notFiller known
      exact none _ _ longest.belongs longest.stands
  · intro unknown
    rw [String.toList_ofList]
    exact ⟨c, cs, rfl, text_of_unknown unknown⟩

theorem is_longest_match_comment {body behind rest : List Char} {here : Position}
    (closed : closeComment rest = some (body, behind)) :
    Token.IsLongestMatch ⟨.comment, String.ofList ('{' :: body), here⟩ ('{' :: rest) := by
  have longest := longest_comment closed
  apply Token.IsLongestMatch.mk
  · rw [String.toList_ofList]
    exact fun _ => longest
  · constructor
    · exact nofun
    · intro none
      exact absurd longest.stands (none _ _ longest.belongs)
  · exact nofun

theorem is_longest_match_look_at {here after : Position} {cs rest : List Char} {token : Token}
    (found : (lookAt here cs).found = .token token after rest) :
    ∃ gap behind, cs = gap ++ behind ∧ token.position = here.advance gap ∧
      token.IsLongestMatch behind := by
  have whole : cs.takeWhile isFiller ++ cs.dropWhile isFiller = cs :=
    List.takeWhile_append_dropWhile
  rcases token with ⟨kind, lexeme, position⟩
  rcases Scan.token_of_look_at found with ⟨c, others, remaining, notFiller, place, known⟩
  rw [remaining] at whole
  rcases known with ⟨rfl, body, closed, rfl, rfl⟩ | ⟨notOpening, rfl, rfl⟩
  · exact ⟨_, _, whole.symm, place, is_longest_match_comment closed⟩
  · exact ⟨_, _, whole.symm, place, is_longest_match_cut notOpening notFiller⟩

end Reading

theorem Lexer.next_of_symbol (lexer : Lexer) {c : Char} {rest : List Char}
    (scanning : lexer.status = .scanning) (ahead : lexer.rest = c :: rest)
    (notFiller : Lexeme.isFiller c = false) (notOpening : c ≠ '{') :
    lexer.next.1 =
      ⟨(Lexeme.cut c rest).kind, String.ofList (Lexeme.cut c rest).text, lexer.here⟩ := by
  unfold next
  rw [scanning, ahead]
  simp [Reading.lookAt, notFiller, notOpening, Reading.token]

namespace Scan

theorem longest_of_read_from (passed cs : List Char) :
    ∀ item ∈ (readFrom (.behind passed) cs).items,
      ∃ before behind, passed ++ cs = before ++ behind ∧ item.token.position = .behind before ∧
        item.token.IsLongestMatch behind := by
  generalize start : Position.behind passed = here
  fun_induction readFrom here cs generalizing passed with
  | case1 here cs reading token after rest found _ following induction =>
      subst start
      have described := Reading.describes_look_at passed cs
      rw [show (Reading.lookAt (.behind passed) cs).found = _ from found] at described
      rcases described with ⟨gap, text, whole, -, -, -, -, -, behind⟩
      intro item member
      rcases List.mem_cons.mp member with rfl | member
      · rcases Reading.is_longest_match_look_at found with ⟨gap, behind, rfl, position, longest⟩
        rw [Position.advance_behind] at position
        exact ⟨passed ++ gap, behind, (List.append_assoc _ _ _).symm, position, longest⟩
      · rcases induction _ behind.symm item member with ⟨before, behind, same, others⟩
        refine ⟨before, behind, ?_, others⟩
        rw [← same, whole]
        simp only [List.append_assoc]
  | case2 | case3 =>
      intro item member
      cases member

/-- Scanning takes the longest match everywhere. Every token of a text but the end-of-file mark
is the longest lexeme that stands where the token does, and has the kind of its class. Where a
scanning lexer meets a character that may not stand in a gap and opens no comment, it delivers a
token of unknown kind exactly if no class has a lexeme there, and that token is the one
character. -/
theorem tokens_are_longest_matches (source : String) :
    (∀ token ∈ (ofText source).tokens, token.kind ≠ .eof →
      ∃ passed behind : String, source = passed ++ behind ∧ passed.utf8ByteSize = token.offset ∧
        token.IsLongestMatch behind.toList) ∧
    (∀ (lexer : Lexer) (c : Char) (rest : List Char), lexer.status = .scanning →
      lexer.rest = c :: rest → c ∉ gapChars → c ≠ '{' →
      lexer.next.1.position = lexer.here ∧ lexer.next.1.IsLongestMatch (c :: rest)) := by
  constructor
  · intro token member real
    rcases List.mem_append.mp member with scanned | ending
    · rcases List.mem_map.mp scanned with ⟨item, listed, rfl⟩
      rcases longest_of_read_from [] source.toList item listed with
        ⟨before, behind, same, position, longest⟩
      refine ⟨String.ofList before, String.ofList behind, ?_, ?_, ?_⟩
      · rw [← String.toList_inj]
        simpa using same
      · rw [Token.offset, position]
        rfl
      · rwa [String.toList_ofList]
    · rcases laid_read_from [] source.toList with ⟨final, -, ended⟩
      rw [List.mem_singleton.mp ending] at real
      exact absurd (congrArg Token.kind ended) real
  · intro lexer c rest scanning ahead noGap notOpening
    have notFiller : Lexeme.isFiller c = false := by
      rw [Bool.eq_false_iff]
      exact fun filler => noGap (mem_gap_chars filler)
    have next := lexer.next_of_symbol scanning ahead notFiller notOpening
    rw [next]
    exact ⟨rfl, Reading.is_longest_match_cut notOpening notFiller⟩

/-- A second fraction is none, and the letter belongs to no class. -/
theorem longest_matches_of_points :
    (∃ passed behind : String, "1.2.3<>=é" = passed ++ behind ∧ passed.utf8ByteSize = 0 ∧
      Token.IsLongestMatch ⟨.realLit, "1.2", .start⟩ behind.toList) ∧
    (∃ passed behind : String, "1.2.3<>=é" = passed ++ behind ∧ passed.utf8ByteSize = 5 ∧
      Token.IsLongestMatch ⟨.notEqual, "<>", ⟨1, 6, 5⟩⟩ behind.toList) ∧
    Token.IsLongestMatch ⟨.unknown, "é", .start⟩ ['é', '='] := by
  have matched := tokens_are_longest_matches "1.2.3<>=é"
  have number : ⟨.realLit, "1.2", .start⟩ ∈ (ofText "1.2.3<>=é").tokens := by decide +kernel
  have operator : ⟨.notEqual, "<>", ⟨1, 6, 5⟩⟩ ∈ (ofText "1.2.3<>=é").tokens := by decide +kernel
  have strange := matched.2 ⟨.start, ['é', '='], .scanning, []⟩ 'é' ['='] rfl rfl (by decide)
    (by decide)
  have next : (Lexer.next ⟨.start, ['é', '='], .scanning, []⟩).1 = ⟨.unknown, "é", .start⟩ := by
    decide +kernel
  rw [next] at strange
  exact ⟨matched.1 _ number nofun, matched.1 _ operator nofun, strange.2⟩

end Scan

end TinyPascal
