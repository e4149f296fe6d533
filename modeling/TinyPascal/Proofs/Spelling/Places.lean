import Mathlib.Data.List.TakeWhile
import TinyPascal.Lexer.Scan

/-!
# Where the tokens of a text stand

A scan loses nothing: a text is its tokens with gaps between them, and every token says
where in the text it stands. Lines and columns are counted in the text before a token;
nothing but the text itself decides them.
-/

namespace TinyPascal

set_option autoImplicit false

def gapChars : List Char := [' ', '\t', '\x0b', '\x0c', '\r', '\n', '}']

theorem mem_gap_chars {c : Char} (filler : Lexeme.isFiller c = true) : c ∈ gapChars := by
  simp only [Lexeme.isFiller, Lexeme.isBlank, Bool.or_eq_true, decide_eq_true_eq] at filler
  simpa [gapChars, or_assoc] using filler

namespace Position

/-- The place behind `text`: line feeds count lines, characters behind the last of them
count columns, and the offset is a number of bytes. -/
def behind (text : List Char) : Position :=
  ⟨1 + text.count '\n', 1 + (text.reverse.takeWhile fun c => c != '\n').length,
    (String.ofList text).utf8ByteSize⟩

theorem behind_snoc (text : List Char) (c : Char) : behind (text ++ [c]) = (behind text).step c := by
  have size : (String.ofList (text ++ [c])).utf8ByteSize =
      (String.ofList text).utf8ByteSize + c.utf8Size := by
    rw [String.ofList_append, String.utf8ByteSize_append, ← String.singleton_eq_ofList,
      String.utf8ByteSize_singleton]
  unfold behind step
  rw [size]
  by_cases newline : c = '\n'
  · simp [newline, Nat.add_assoc]
  · simp [newline, Nat.add_comm]

theorem advance_behind (before text : List Char) :
    (behind before).advance text = behind (before ++ text) := by
  induction text generalizing before with
  | nil => rw [List.append_nil, advance_nil]
  | cons c text induction =>
      rw [advance_cons, ← behind_snoc, induction, List.append_assoc]
      rfl

end Position

namespace Token

def stop (token : Token) : Nat := token.offset + token.lexeme.utf8ByteSize

end Token

/-- Where the last of some tokens stops, or `start` if there is none. -/
def stopOf (start : Nat) : List Token → Nat
  | [] => start
  | token :: others => stopOf token.stop others

theorem Kind.of_word_ne_eof (word : String) : ofWord word ≠ eof := by
  have real : ∀ entry ∈ reserved, entry.2 ≠ eof := by decide
  unfold ofWord
  cases found : ofReserved? word with
  | none => decide
  | some kind =>
      rcases List.lookup_eq_some_iff.mp found with ⟨before, after, split, -⟩
      apply real (word, kind)
      rw [split]
      exact List.mem_append_right _ List.mem_cons_self

namespace Lexeme

theorem kind_cut_ne_eof (c : Char) (cs : List Char) : (cut c cs).kind ≠ .eof := by
  unfold cut
  by_cases letter : c.isAlpha
  · rw [if_pos letter]
    exact Kind.of_word_ne_eof _
  · rw [if_neg letter]
    by_cases digit : c.isDigit
    · rw [if_pos digit]
      unfold number
      split
      · split <;> simp
      · simp
    · rw [if_neg digit]
      unfold symbol
      split
      · unfold symbolKind
        split <;> simp
      · split
        · next joined =>
          unfold pairKind? at joined
          split at joined <;> cases joined <;> simp
        · unfold symbolKind
          split <;> simp

theorem not_mem_of_close_comment {cs : List Char} (unclosed : closeComment cs = none) :
    '}' ∉ cs := by
  unfold closeComment at unclosed
  split at unclosed
  · next unread =>
    intro member
    have inside := List.dropWhile_eq_nil_iff.mp unread '}' member
    simp at inside
  · cases unclosed

theorem close_comment_of_closed {body : List Char} (closed : '}' ∉ body) (rest : List Char) :
    closeComment (body ++ '}' :: rest) = some (body ++ ['}'], rest) := by
  have inside : ∀ c ∈ body, (c != '}') = true := by
    intro c member
    have other : c ≠ '}' := by
      intro same
      rw [same] at member
      exact closed member
    simpa using other
  rw [closeComment, List.dropWhile_append_of_pos inside, List.takeWhile_append_of_pos inside]
  simp

end Lexeme

/-- What follows the last token: a gap, and in a truncated text a comment that is never
closed. -/
def Tail (truncated : Bool) (rest : List Char) : Prop :=
  if truncated then
    ∃ gap hidden, rest = gap ++ '{' :: hidden ∧ (∀ c ∈ gap, c ∈ gapChars) ∧ '}' ∉ hidden
  else ∀ c ∈ rest, c ∈ gapChars

/-- Behind the text `passed`, the text `rest` holds `tokens` with gaps between them, and the
last one ends where `final` does. -/
inductive Laid (truncated : Bool) (final : List Char) : List Char → List Token → List Char → Prop
  | ending {rest : List Char} (tail : Tail truncated rest) : Laid truncated final final [] rest
  | token {passed gap text rest : List Char} {token : Token} {tokens : List Token}
      (isGap : ∀ c ∈ gap, c ∈ gapChars) (nonempty : text ≠ [])
      (lexeme : token.lexeme = String.ofList text)
      (position : token.position = .behind (passed ++ gap)) (real : token.kind ≠ .eof)
      (others : Laid truncated final (passed ++ gap ++ text) tokens rest) :
      Laid truncated final passed (token :: tokens) (gap ++ text ++ rest)

namespace Reading

/-- What a reading says about the text it was made of, which stands behind `passed`. -/
def Describes (passed cs : List Char) : Found → Prop
  | .token token after rest =>
      ∃ gap text, cs = gap ++ text ++ rest ∧ (∀ c ∈ gap, c ∈ gapChars) ∧ text ≠ [] ∧
        token.lexeme = String.ofList text ∧ token.position = .behind (passed ++ gap) ∧
        token.kind ≠ .eof ∧ after = .behind (passed ++ gap ++ text)
  | .nothing => Tail false cs
  | .unclosedComment => Tail true cs

theorem describes_token (passed : List Char) {gap text : List Char} (rest : List Char) {kind : Kind}
    (isGap : ∀ c ∈ gap, c ∈ gapChars) (nonempty : text ≠ []) (real : kind ≠ .eof) :
    Describes passed (gap ++ text ++ rest)
      (Reading.token kind ((Position.behind passed).advance gap) text rest) := by
  rw [Position.advance_behind]
  exact ⟨gap, text, rfl, isGap, nonempty, rfl, rfl, real, Position.advance_behind _ _⟩

theorem describes_look_at (passed cs : List Char) :
    Describes passed cs (lookAt (.behind passed) cs).found := by
  have isGap : ∀ c ∈ cs.takeWhile Lexeme.isFiller, c ∈ gapChars := by
    intro c member
    exact mem_gap_chars (List.mem_takeWhile_imp member)
  have whole : cs.takeWhile Lexeme.isFiller ++ cs.dropWhile Lexeme.isFiller = cs :=
    List.takeWhile_append_dropWhile
  unfold lookAt
  cases remaining : cs.dropWhile Lexeme.isFiller with
  | nil =>
      rw [remaining, List.append_nil] at whole
      rw [whole] at isGap
      exact isGap
  | cons c rest =>
      rw [remaining] at whole
      by_cases opening : c = '{'
      · simp only [if_pos opening]
        cases closed : Lexeme.closeComment rest with
        | none =>
            rw [opening] at whole
            exact ⟨_, rest, whole.symm, isGap, Lexeme.not_mem_of_close_comment closed⟩
        | some pair =>
            have body : pair.1 ++ pair.2 = rest := Lexeme.close_comment_append closed
            have split : cs = cs.takeWhile Lexeme.isFiller ++ (c :: pair.1) ++ pair.2 := by
              rw [List.append_assoc, List.cons_append, body, whole]
            have real : Kind.comment ≠ .eof := by decide
            have token := describes_token passed pair.2 isGap (List.cons_ne_nil c pair.1) real
            rw [← split] at token
            exact token
      · simp only [if_neg opening]
        have split : cs = cs.takeWhile Lexeme.isFiller ++ (Lexeme.cut c rest).text ++
            (Lexeme.cut c rest).rest := by
          rw [List.append_assoc, Lexeme.cut_append, whole]
        have token := describes_token passed (Lexeme.cut c rest).rest isGap
          (Lexeme.cut_text_ne_nil c rest) (Lexeme.kind_cut_ne_eof c rest)
        rw [← split] at token
        exact token

end Reading

namespace Scan

theorem laid_read_from (passed cs : List Char) :
    ∃ final, Laid (readFrom (.behind passed) cs).truncated final passed
        ((readFrom (.behind passed) cs).items.map Item.token) cs ∧
      (readFrom (.behind passed) cs).ending.token = .endOfFile (.behind final) := by
  generalize start : Position.behind passed = here
  fun_induction readFrom here cs generalizing passed with
  | case1 here cs reading token after rest found _ following induction =>
      subst start
      have described := Reading.describes_look_at passed cs
      rw [show (Reading.lookAt (.behind passed) cs).found = _ from found] at described
      rcases described with ⟨gap, text, rfl, isGap, nonempty, lexeme, position, real, behind⟩
      rcases induction _ behind.symm with ⟨final, laid, ending⟩
      exact ⟨final, .token isGap nonempty lexeme position real laid, ending⟩
  | case2 here cs reading found =>
      subst start
      have described := Reading.describes_look_at passed cs
      rw [show (Reading.lookAt (.behind passed) cs).found = _ from found] at described
      exact ⟨passed, .ending described, rfl⟩
  | case3 here cs reading found =>
      subst start
      have described := Reading.describes_look_at passed cs
      rw [show (Reading.lookAt (.behind passed) cs).found = _ from found] at described
      exact ⟨passed, .ending described, rfl⟩

end Scan

namespace Laid

variable {truncated : Bool} {final passed rest : List Char} {tokens : List Token}

abbrev size (text : List Char) : Nat := (String.ofList text).utf8ByteSize

theorem size_append (first second : List Char) : size (first ++ second) = size first + size second := by
  rw [size, String.ofList_append, String.utf8ByteSize_append]

theorem stop_eq {gap text : List Char} {token : Token} (lexeme : token.lexeme = String.ofList text)
    (position : token.position = .behind (passed ++ gap)) : token.stop = size (passed ++ gap ++ text) := by
  rw [Token.stop, Token.offset, position, lexeme, size_append]
  rfl

theorem real (laid : Laid truncated final passed tokens rest) :
    ∀ token ∈ tokens, token.kind ≠ .eof := by
  induction laid with
  | ending => exact List.forall_mem_nil _
  | token _ _ _ _ real _ induction => exact List.forall_mem_cons.mpr ⟨real, induction⟩

/-- Every token stands behind a gap that starts where the one before it stops. -/
theorem token_at (laid : Laid truncated final passed tokens rest) {earlier later : List Token}
    {token : Token} (split : tokens = earlier ++ token :: later) :
    ∃ before gap behind, passed ++ rest = before ++ gap ++ token.lexeme.toList ++ behind ∧
      size before = stopOf (size passed) earlier ∧ (∀ c ∈ gap, c ∈ gapChars) ∧
      token.lexeme ≠ "" ∧ token.position = .behind (before ++ gap) := by
  induction laid generalizing earlier with
  | ending => cases earlier <;> cases split
  | @token passed gap text rest head tokens isGap nonempty lexeme position _ _ induction =>
      cases earlier with
      | nil =>
          rw [List.nil_append, List.cons.injEq] at split
          rw [← split.1]
          have written : head.lexeme ≠ "" := by
            rw [lexeme]
            intro empty
            exact nonempty (String.ofList_eq_empty_iff.mp empty)
          exact ⟨passed, gap, rest, by simp [lexeme], rfl, isGap, written, position⟩
      | cons first earlier =>
          cases split
          rcases induction rfl with ⟨before, space, behind, whole, size, others⟩
          rw [← stop_eq lexeme position] at size
          exact ⟨before, space, behind, by simpa using whole, size, others⟩

theorem tail (laid : Laid truncated final passed tokens rest) :
    ∃ tail, passed ++ rest = final ++ tail ∧ size final = stopOf (size passed) tokens ∧
      Tail truncated tail := by
  induction laid with
  | @ending rest tail => exact ⟨rest, rfl, rfl, tail⟩
  | token _ _ lexeme position _ _ induction =>
      rcases induction with ⟨behind, whole, size, tail⟩
      rw [← stop_eq lexeme position] at size
      exact ⟨behind, by simpa using whole, size, tail⟩

theorem le_offset (laid : Laid truncated final passed tokens rest) :
    ∀ token ∈ tokens, size passed ≤ token.offset := by
  induction laid with
  | ending => exact List.forall_mem_nil _
  | @token passed gap text _ head _ _ _ _ position _ _ induction =>
      intro token member
      rcases List.mem_cons.mp member with rfl | member
      · rw [Token.offset, position]
        exact Nat.le.intro (size_append passed gap).symm
      · have later := induction token member
        rw [size_append, size_append] at later
        omega

theorem sorted (laid : Laid truncated final passed tokens rest) :
    tokens.Pairwise fun first second => first.offset < second.offset ∧ first.stop ≤ second.offset := by
  induction laid with
  | ending => exact .nil
  | @token passed gap text _ head _ _ nonempty lexeme position _ others induction =>
      apply List.Pairwise.cons _ induction
      intro token member
      have later := others.le_offset token member
      rw [← stop_eq lexeme position] at later
      have written : 0 < head.lexeme.utf8ByteSize := by
        rw [Nat.pos_iff_ne_zero, lexeme]
        intro empty
        exact nonempty (String.ofList_eq_empty_iff.mp (String.utf8ByteSize_eq_zero_iff.mp empty))
      have beyond : head.offset < head.stop := Nat.lt_add_of_pos_right written
      exact ⟨beyond.trans_le later, later⟩

end Laid

namespace Scan

theorem extract_middle (before text behind : String) :
    (before ++ text ++ behind).toByteArray.extract before.utf8ByteSize
      (before.utf8ByteSize + text.utf8ByteSize) = text.toByteArray := by
  have inside : before.utf8ByteSize + text.utf8ByteSize -
      (before.toByteArray ++ text.toByteArray).size = 0 := by
    rw [ByteArray.size_append, String.size_toByteArray, String.size_toByteArray, Nat.sub_self]
  rw [String.toByteArray_append, String.toByteArray_append, ByteArray.extract_append, inside,
    ByteArray.extract_append_eq_right String.size_toByteArray.symm]
  · simp
  · simp

/-- Scanning is lossless. The tokens of a text before its end-of-file mark follow each
other without overlap. Each is the part of the text it says it is, behind a gap that starts
where the token before it stops, and its line and column are counted in the text before it.
The end-of-file mark stands where the last token stops, and what follows it is a gap, or a
gap and a comment that is never closed. -/
theorem scan_is_lossless (source : String) :
    ∃ (tokens : List Token) (final tail : String),
      (ofText source).tokens = tokens ++ [.endOfFile (.behind final.toList)] ∧
      (∀ token ∈ tokens, token.kind ≠ .eof) ∧
      tokens.Pairwise (fun first second =>
        first.offset < second.offset ∧ first.stop ≤ second.offset) ∧
      (∀ earlier token later, tokens = earlier ++ token :: later →
        ∃ passed gap behind : String,
          source = passed ++ gap ++ token.lexeme ++ behind ∧
          passed.utf8ByteSize = stopOf 0 earlier ∧ (∀ c ∈ gap.toList, c ∈ gapChars) ∧
          token.lexeme ≠ "" ∧ token.position = .behind (passed ++ gap).toList ∧
          source.toByteArray.extract token.offset token.stop = token.lexeme.toByteArray) ∧
      source = final ++ tail ∧ final.utf8ByteSize = stopOf 0 tokens ∧
      ((ofText source).truncated = false → ∀ c ∈ tail.toList, c ∈ gapChars) ∧
      ((ofText source).truncated = true → ∃ gap hidden : String,
        tail = gap ++ "\x7b" ++ hidden ∧ (∀ c ∈ gap.toList, c ∈ gapChars) ∧
        '}' ∉ hidden.toList) := by
  rcases laid_read_from [] source.toList with ⟨final, laid, ending⟩
  rcases laid.tail with ⟨tail, whole, stops, closing⟩
  apply Exists.intro ((ofText source).items.map Item.token)
  apply Exists.intro (String.ofList final)
  apply Exists.intro (String.ofList tail)
  rw [String.toList_ofList, String.toList_ofList]
  apply And.intro (congrArg (fun mark => (ofText source).items.map Item.token ++ [mark]) ending)
  apply And.intro laid.real
  apply And.intro laid.sorted
  constructor
  · intro earlier token later split
    rcases laid.token_at split with ⟨passed, gap, behind, text, size, isGap, written, position⟩
    have parts : source = String.ofList passed ++ String.ofList gap ++ token.lexeme ++
        String.ofList behind := by
      rw [← String.toList_inj]
      simpa using text
    have bytes : source.toByteArray.extract token.offset token.stop = token.lexeme.toByteArray := by
      rw [Token.stop, Token.offset, position, parts]
      rw [← String.ofList_append]
      exact extract_middle _ _ _
    refine ⟨String.ofList passed, String.ofList gap, String.ofList behind, parts, size, ?_, written,
      ?_, bytes⟩
    · rwa [String.toList_ofList]
    · rw [position]
      simp
  · refine ⟨?_, stops, ?_, ?_⟩
    · rw [← String.toList_inj]
      simpa using whole
    · intro complete
      change Tail (ofText source).truncated tail at closing
      rw [complete] at closing
      exact closing
    · intro cut
      change Tail (ofText source).truncated tail at closing
      rw [cut] at closing
      rcases closing with ⟨gap, hidden, rfl, isGap, unclosed⟩
      refine ⟨String.ofList gap, String.ofList hidden, ?_, ?_, ?_⟩
      · rw [← String.toList_inj]
        simp
      · rwa [String.toList_ofList]
      · rwa [String.toList_ofList]

/-- A character of two bytes moves the next line by one more, and a comment that is never closed
belongs to no token. -/
theorem scan_of_unclosed_comment :
    ∃ passed gap behind final hidden : String,
      "é\n:= \x7b" = passed ++ gap ++ ":=" ++ behind ∧ passed.utf8ByteSize = 2 ∧
        (⟨2, 1, 3⟩ : Position) = .behind (passed ++ gap).toList ∧
        "é\n:= \x7b" = final ++ hidden ∧ final.utf8ByteSize = 5 ∧
        ∃ blank unread : String, hidden = blank ++ "\x7b" ++ unread := by
  rcases scan_is_lossless "é\n:= \x7b" with
    ⟨tokens, final, tail, scanned, _, _, each, whole, size, _, cut⟩
  have known : tokens =
      [⟨.unknown, "é", ⟨1, 1, 0⟩⟩] ++ ⟨.assign, ":=", ⟨2, 1, 3⟩⟩ :: [] := by
    have front := congrArg List.dropLast scanned
    rw [List.dropLast_concat] at front
    rw [← front]
    decide +kernel
  have truncated : (ofText "é\n:= \x7b").truncated = true := by decide +kernel
  rcases each _ _ _ known with ⟨passed, gap, behind, parts, before, _, _, position, _⟩
  rcases cut truncated with ⟨blank, hidden, rfl, _, _⟩
  rw [known] at size
  exact ⟨passed, gap, behind, final, _, parts, before, position, whole, size, blank, hidden, rfl⟩

end Scan

end TinyPascal
