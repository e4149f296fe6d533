import Mathlib.Data.List.Perm.Subperm
import TinyPascal.Proofs.Recording.Delivery
import TinyPascal.Proofs.Recording.Merge
import TinyPascal.Proofs.Spelling.Places

/-!
# What a recorder shows of a text

A recorder that follows a parse holds the tokens consumed and the comments passed on. Merged,
they are a part of the text in its own order, and the whole text if it is a program with
nothing but blanks and comments behind its final point.
-/

namespace TinyPascal

set_option autoImplicit false

/-- Blanks and closed comments. -/
inductive IsLayout : List Char → Prop
  | nil : IsLayout []
  | blank {c : Char} {cs : List Char} (isBlank : Lexeme.isBlank c = true) (others : IsLayout cs) :
      IsLayout (c :: cs)
  | comment {body cs : List Char} (closed : '}' ∉ body) (others : IsLayout cs) :
      IsLayout ('{' :: (body ++ '}' :: cs))

namespace IsLayout

variable {cs : List Char}

/-- Behind its first blanks, a layout is over or goes on with a comment. -/
theorem behind_filler (layout : IsLayout cs) : cs.dropWhile Lexeme.isFiller = [] ∨
    ∃ body others, cs.dropWhile Lexeme.isFiller = '{' :: (body ++ '}' :: others) ∧
      '}' ∉ body ∧ IsLayout others := by
  induction layout with
  | nil => exact .inl rfl
  | @blank c _ isBlank _ induction =>
      have filler : Lexeme.isFiller c = true := by
        rw [Lexeme.isFiller, isBlank, Bool.true_or]
      rw [List.dropWhile_cons_of_pos filler]
      exact induction
  | comment closed others _ => exact .inr ⟨_, _, rfl, closed, others⟩

theorem of_look_at (layout : IsLayout cs) {here after : Position} {token : Token} {rest : List Char}
    (found : (Reading.lookAt here cs).found = .token token after rest) :
    token.kind = .comment ∧ IsLayout rest := by
  unfold Reading.lookAt at found
  rcases layout.behind_filler with blank | ⟨body, others, more, closed, layout⟩
  · simp [blank] at found
  · simp only [more, if_true, Lexeme.close_comment_of_closed closed, Reading.token,
      Found.token.injEq] at found
    rcases found with ⟨rfl, -, rfl⟩
    exact ⟨rfl, layout⟩

theorem comments_read_from (layout : IsLayout cs) (here : Position) :
    ∀ item ∈ (Scan.readFrom here cs).items, item.token.kind = .comment := by
  fun_induction Scan.readFrom here cs with
  | case1 here cs reading token after rest found _ following induction =>
      rcases layout.of_look_at found with ⟨isComment, behind⟩
      exact List.forall_mem_cons.mpr ⟨isComment, induction behind⟩
  | case2 | case3 => exact List.forall_mem_nil _

end IsLayout

open scoped List

namespace Laid

theorem eq_nil_of_size_eq_zero {text : List Char} (empty : size text = 0) : text = [] :=
  String.ofList_eq_empty_iff.mp (String.utf8ByteSize_eq_zero_iff.mp empty)

theorem append_inj {first second front back : List Char} (same : first ++ second = front ++ back)
    (sizes : size first = size front) : first = front ∧ second = back := by
  rcases List.append_eq_append_iff.mp same with ⟨middle, rfl, rfl⟩ | ⟨middle, rfl, rfl⟩
  · rw [size_append] at sizes
    rw [@eq_nil_of_size_eq_zero middle (by omega)]
    simp
  · rw [size_append] at sizes
    rw [@eq_nil_of_size_eq_zero middle (by omega)]
    simp

end Laid

namespace Scan

theorem read_from_behind (passed cs : List Char) {earlier later : List Item} {item : Item}
    (split : (readFrom (.behind passed) cs).items = earlier ++ item :: later) :
    ∃ front behind, passed ++ cs = front ++ behind ∧ Laid.size front = item.token.stop ∧
      later = (readFrom (.behind front) behind).items := by
  generalize start : Position.behind passed = here at split
  fun_induction readFrom here cs generalizing passed earlier with
  | case1 here cs reading token after rest found =>
      rename_i following induction
      subst start
      have described := Reading.describes_look_at passed cs
      rw [show (Reading.lookAt (.behind passed) cs).found = _ from found] at described
      rcases described with ⟨gap, text, rfl, _, _, lexeme, position, _, behind⟩
      cases earlier with
      | nil =>
          rw [List.nil_append, List.cons.injEq] at split
          rcases split with ⟨rfl, rfl⟩
          have stops : token.stop = Laid.size (passed ++ gap ++ text) :=
            Laid.stop_eq lexeme position
          subst behind
          exact ⟨passed ++ gap ++ text, rest, by simp, stops.symm, rfl⟩
      | cons first earlier =>
          rw [List.cons_append, List.cons.injEq] at split
          rcases induction _ behind.symm split.2 with ⟨front, others, whole, stops, same⟩
          exact ⟨front, others, by simpa using whole, stops, same⟩
  | case2 | case3 => cases earlier <;> cases split

variable (source : String)

theorem in_order_items : InOrder ((ofText source).items.map Item.token) := by
  rcases laid_read_from [] source.toList with ⟨final, laid, _⟩
  exact laid.sorted.imp fun order => order.1

theorem real_items : ∀ token ∈ (ofText source).items.map Item.token, token.kind ≠ .eof := by
  rcases laid_read_from [] source.toList with ⟨final, laid, _⟩
  exact laid.real

theorem filter_tokens (keep : Token → Bool) (notEnd : ∀ token, keep token = true → token.kind ≠ .eof) :
    (ofText source).tokens.filter keep = ((ofText source).items.map Item.token).filter keep := by
  rcases ended_read_from .start source.toList with ⟨place, ended⟩
  have last : (ofText source).ending.token.kind = .eof := congrArg Token.kind ended
  have dropped : keep (ofText source).ending.token ≠ true := fun kept => notEnd _ kept last
  rw [tokens, List.filter_append, List.filter_cons_of_neg dropped, List.filter_nil,
    List.append_nil]

theorem words_eq_filter : (ofText source).words =
    (ofText source).tokens.filter fun token => token.kind != .comment && token.kind != .eof := by
  rw [filter_tokens source _ fun token kept => by simpa using (Bool.and_eq_true_iff.mp kept).2]
  apply List.filter_congr
  intro token member
  simp [real_items source token member]

theorem comments_eq_filter : (ofText source).comments =
    (ofText source).tokens.filter fun token => token.kind = .comment := by
  rw [filter_tokens source _ fun token kept isEnd => by simp [isEnd] at kept]
  rfl

theorem items_eq_filter : (ofText source).items.map Item.token =
    (ofText source).tokens.filter fun token => token.kind != .eof := by
  rw [filter_tokens source _ fun token kept => by simpa using kept]
  apply List.filter_eq_self.mpr _ |>.symm
  intro token member
  simpa using real_items source token member

theorem words_append_comments_perm :
    ((ofText source).words ++ (ofText source).comments).Perm ((ofText source).items.map Item.token) := by
  have split := List.filter_append_perm (fun token : Token => token.kind != .comment)
    ((ofText source).items.map Item.token)
  have others : (ofText source).comments = ((ofText source).items.map Item.token).filter
      fun token => !(token.kind != .comment) := by
    apply List.filter_congr
    intro token _
    rw [bne, Bool.not_not, beq_eq_decide]
  rw [others]
  exact split

end Scan

theorem Phrase.WholeProgram.ends {broken : Breakage} {n : Nat} {script : Script} {rest : List Token}
    {value : Program} (read : WholeProgram broken n script rest value) :
    ∃ before point, script.tokens = before ++ [point] ∧ point.kind = .dot := by
  cases read with
  | @intro keyword name semicolon opening vars inner body _ _ _ _ _ _ _ _ _ done =>
      cases done with
      | @intro _ endWord front back _ _ _ _ _ closes =>
          rcases closes with ⟨point, _, rfl, isDot, rfl, _⟩
          exact ⟨keyword :: name :: semicolon :: (vars.tokens ++ (inner.tokens ++ opening ::
            (front.tokens ++ [endWord]))), point, by simp, of_decide_eq_true isDot⟩

namespace Parse

variable {source : String}

theorem interleaved_in_order (source : String) : InOrder (ofText source).recorder.interleaved := by
  have ordered := Scan.in_order_items source
  have words : (ofText source).recorder.tokens <+ (Scan.ofText source).words :=
    (recorded_tokens_first source).sublist
  have comments : (ofText source).recorder.comments <+ (Scan.ofText source).comments :=
    (recorded_comments_first source).sublist
  have tokensOrdered := ordered.sublist (words.trans List.filter_sublist)
  have commentsOrdered := ordered.sublist (comments.trans List.filter_sublist)
  apply Recorder.in_order_interleave tokensOrdered commentsOrdered
  intro token isToken comment isComment same
  rcases List.mem_filter.mp (words.subset isToken) with ⟨tokenFound, real⟩
  rcases List.mem_filter.mp (comments.subset isComment) with ⟨commentFound, note⟩
  rw [ordered.eq_of_offset_eq tokenFound commentFound same] at real
  simp [of_decide_eq_true note] at real

theorem interleaved_sublist (source : String) :
    (ofText source).recorder.interleaved <+ (Scan.ofText source).items.map Item.token := by
  apply (interleaved_in_order source).sublist_of_subperm (Scan.in_order_items source)
  have parts := List.Subperm.append (recorded_tokens_first source).sublist.subperm
    (recorded_comments_first source).sublist.subperm
  exact ((Recorder.interleave_perm _ _).subperm.trans parts).trans
    (Scan.words_append_comments_perm source).subperm

theorem interleaved_eq_of_all_consumed (all : (ofText source).recorder.tokens = (Scan.ofText source).words) :
    (ofText source).recorder.interleaved = (Scan.ofText source).items.map Item.token := by
  have meets : meetsEnd source = true := by
    apply decide_eq_true
    rw [all]
    omega
  apply (interleaved_in_order source).eq_of_perm (Scan.in_order_items source)
  have whole := Recorder.interleave_perm (ofText source).recorder.tokens
    (ofText source).recorder.comments
  apply whole.trans
  rw [all, recorded_comments_of_meets_end meets]
  exact Scan.words_append_comments_perm source

/-- As far as it is consumed, a text without error ends with a point. Behind the point a layout
leaves nothing to consume. -/
theorem words_end_with_point (clean : (ofText source).hadError = false) :
    ∃ before point, (ofText source).recorder.tokens = before ++ [point] ∧ point.kind = .dot ∧
      ∀ front behind : String, source = front ++ behind → front.utf8ByteSize = point.stop →
        IsLayout behind.toList → (ofText source).recorder.tokens = (Scan.ofText source).words := by
  rcases sound_of_text clean with ⟨n, script, rest, read, words, performs, -⟩
  rcases read.ends with ⟨before, point, ends, isDot⟩
  have recorded : (ofText source).recorder.tokens = script.tokens := performs.consumed
  refine ⟨before, point, recorded.trans ends, isDot, ?_⟩
  intro front behind whole size layout
  -- The words in front of the point and behind it are those of the items there.
  have splitWords : (Scan.ofText source).words = before ++ point :: rest := by
    rw [words, ends, List.append_assoc]
    rfl
  rcases List.filter_eq_append_iff.mp splitWords with ⟨earlier, others, splitItems, _, othersWords⟩
  rcases List.filter_eq_cons_iff.mp othersWords with ⟨comments, later, rfl, _, _, laterWords⟩
  rw [← List.append_assoc] at splitItems
  rcases List.map_eq_append_iff.mp splitItems with ⟨front', back, items, _, backTokens⟩
  rcases List.map_eq_cons_iff.mp backTokens with ⟨item, others, rfl, rfl, rfl⟩
  rcases Scan.read_from_behind [] source.toList items with ⟨passed, ahead, split, stops, same⟩
  have chars : front.toList ++ behind.toList = passed ++ ahead := by
    rw [← String.toList_append, ← whole]
    exact split
  have sizes : Laid.size front.toList = Laid.size passed := by
    rw [stops, ← size, Laid.size, String.ofList_toList]
  rw [(Laid.append_inj chars sizes).2] at layout
  have onlyComments := layout.comments_read_from (.behind passed)
  rw [← same] at onlyComments
  have nothing : rest = [] := by
    rw [← laterWords, List.filter_eq_nil_iff]
    intro token member
    rcases List.mem_map.mp member with ⟨later, found, rfl⟩
    simp [onlyComments later found]
  rw [recorded, words, nothing, List.append_nil]

/-- A recorder sees the text faithfully, also a broken one: its tokens are the first ones of
the text, its comments are the first ones, and merged they are what was recorded, each once, in
the order of the text. Where there is no error, the last token consumed is a point, and if only
blanks and closed comments stand behind it, the whole text is recorded. -/
theorem recorder_shows_the_text (source : String) :
    (ofText source).recorder.tokens <+: (Scan.ofText source).tokens.filter
        (fun token => token.kind != .comment && token.kind != .eof) ∧
      (ofText source).recorder.comments <+:
        (Scan.ofText source).tokens.filter (fun token => token.kind = .comment) ∧
      (ofText source).recorder.interleaved.Perm
        ((ofText source).recorder.tokens ++ (ofText source).recorder.comments) ∧
      (ofText source).recorder.interleaved.Pairwise
        (fun first second => first.offset < second.offset) ∧
      (ofText source).recorder.interleaved.Sublist (Scan.ofText source).tokens ∧
      ((ofText source).hadError = false → ∃ before point,
        (ofText source).recorder.tokens = before ++ [point] ∧ point.kind = .dot ∧
          ∀ front behind : String, source = front ++ behind → front.utf8ByteSize = point.stop →
            IsLayout behind.toList → (ofText source).recorder.interleaved =
              (Scan.ofText source).tokens.filter fun token => token.kind != .eof) := by
  rw [← Scan.words_eq_filter, ← Scan.comments_eq_filter, ← Scan.items_eq_filter]
  refine ⟨recorded_tokens_first source, recorded_comments_first source,
    Recorder.interleave_perm _ _, interleaved_in_order source, ?_, ?_⟩
  · exact (interleaved_sublist source).trans (List.sublist_append_left _ _)
  · intro clean
    rcases words_end_with_point clean with ⟨before, point, ends, isDot, all⟩
    refine ⟨before, point, ends, isDot, ?_⟩
    intro front behind whole size layout
    exact interleaved_eq_of_all_consumed (all front behind whole size layout)

/-- Comments before, between and behind the tokens of a program are all recorded. -/
theorem recorder_shows_text_with_comments :
    (ofText "\x7ba\x7dprogram p;\x7bb\x7dbegin end.\x7bc\x7d ").hadError = false ∧
      (ofText "\x7ba\x7dprogram p;\x7bb\x7dbegin end.\x7bc\x7d ").recorder.interleaved =
        (Scan.ofText "\x7ba\x7dprogram p;\x7bb\x7dbegin end.\x7bc\x7d ").tokens.filter
          fun token => token.kind != .eof := by
  let source := "\x7ba\x7dprogram p;\x7bb\x7dbegin end.\x7bc\x7d "
  have clean : (ofText source).hadError = false := by decide +kernel
  have stops : (ofText source).recorder.tokens.getLast?.map Token.stop = some 26 := by decide +kernel
  rcases recorder_shows_the_text source with ⟨-, -, -, -, -, whole⟩
  rcases whole clean with ⟨before, point, ends, -, all⟩
  rw [ends, List.getLast?_concat, Option.map_some, Option.some.injEq] at stops
  have layout : IsLayout "\x7bc\x7d ".toList := by
    have closed : '}' ∉ ['c'] := by decide
    exact .comment closed (.blank rfl .nil)
  refine ⟨clean, all "\x7ba\x7dprogram p;\x7bb\x7dbegin end." "\x7bc\x7d " rfl ?_ layout⟩
  rw [stops]
  rfl

end Parse

end TinyPascal
