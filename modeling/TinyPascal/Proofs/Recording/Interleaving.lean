import TinyPascal.Proofs.Recording.Merge

/-!
# Where a comment is put

What is written to a recorder comes out of it once, tokens among tokens and comments among
comments in the order in which they came. Comments that come in the order of the text stand before
the first token that starts behind them, whatever order the tokens have.
-/

namespace TinyPascal

set_option autoImplicit false

/-- What a recorder is given at a time. -/
inductive Piece where
  | token (word : Token)
  | comment (note : Token)
deriving DecidableEq, Repr

namespace Piece

def value : Piece → Token
  | token word => word
  | comment note => note

def token? : Piece → Option Token
  | token word => some word
  | comment _ => none

def comment? : Piece → Option Token
  | token _ => none
  | comment note => some note

def tokens (pieces : List Piece) : List Token := pieces.filterMap token?

def comments (pieces : List Piece) : List Token := pieces.filterMap comment?

variable (word note : Token) (pieces others : List Piece)

@[simp]
theorem tokens_cons_token : tokens (token word :: pieces) = word :: tokens pieces := rfl

@[simp]
theorem tokens_cons_comment : tokens (comment note :: pieces) = tokens pieces := rfl

@[simp]
theorem comments_cons_token : comments (token word :: pieces) = comments pieces := rfl

@[simp]
theorem comments_cons_comment : comments (comment note :: pieces) = note :: comments pieces := rfl

@[simp]
theorem tokens_append : tokens (pieces ++ others) = tokens pieces ++ tokens others :=
  List.filterMap_append

@[simp]
theorem comments_append : comments (pieces ++ others) = comments pieces ++ comments others :=
  List.filterMap_append

@[simp]
theorem tokens_map_comment (notes : List Token) : tokens (notes.map comment) = [] := by
  induction notes with
  | nil => rfl
  | cons note notes induction => exact induction

@[simp]
theorem comments_map_comment (notes : List Token) : comments (notes.map comment) = notes := by
  induction notes with
  | nil => rfl
  | cons note notes induction => exact congrArg (note :: ·) induction

end Piece

namespace Recorder

def record (recorder : Recorder) : Piece → Recorder
  | .token word => recorder.writeToken word
  | .comment note => recorder.addComment note

def ofPieces (pieces : List Piece) : Recorder := pieces.foldl record empty

theorem foldl_record (pieces : List Piece) (recorder : Recorder) :
    pieces.foldl record recorder =
      ⟨recorder.tokens ++ Piece.tokens pieces, recorder.comments ++ Piece.comments pieces⟩ := by
  induction pieces generalizing recorder with
  | nil => simp [Piece.tokens, Piece.comments]
  | cons piece pieces induction =>
      rw [List.foldl_cons, induction]
      cases piece with
      | token word => simp [record, writeToken]
      | comment note => simp [record, addComment]

theorem of_pieces_eq (pieces : List Piece) :
    ofPieces pieces = ⟨Piece.tokens pieces, Piece.comments pieces⟩ :=
  foldl_record pieces empty

def before (token : Token) (comments : List Token) : List Token :=
  comments.takeWhile fun comment => comment.offset < token.offset

/-- The comments from the first one on that does not start before `token`. -/
def behind (token : Token) (comments : List Token) : List Token :=
  comments.dropWhile fun comment => comment.offset < token.offset

/-- Tokens and comments put together as `interleave` does it, but still told apart. -/
def merge : List Token → List Token → List Piece
  | [], comments => comments.map .comment
  | token :: tokens, comments =>
      (before token comments).map .comment ++ .token token :: merge tokens (behind token comments)

variable {tokens comments : List Token} {token comment : Token}

theorem before_append_behind (token : Token) (comments : List Token) :
    before token comments ++ behind token comments = comments :=
  List.takeWhile_append_dropWhile

theorem value_merge (tokens comments : List Token) :
    (merge tokens comments).map Piece.value = interleave tokens comments := by
  have value : ∀ notes : List Token, (notes.map Piece.comment).map Piece.value = notes := by
    intro notes
    rw [List.map_map]
    exact List.map_id notes
  induction tokens generalizing comments with
  | nil => exact value comments
  | cons token tokens induction =>
      rw [merge, List.map_append, value, List.map_cons, induction]
      rfl

theorem tokens_merge (tokens comments : List Token) : Piece.tokens (merge tokens comments) = tokens := by
  induction tokens generalizing comments with
  | nil => exact Piece.tokens_map_comment comments
  | cons token tokens induction => simp [merge, induction]

theorem comments_merge (tokens comments : List Token) :
    Piece.comments (merge tokens comments) = comments := by
  induction tokens generalizing comments with
  | nil => exact Piece.comments_map_comment comments
  | cons token tokens induction => simp [merge, induction, before_append_behind]

theorem lt_length_before_iff (token : Token) (ordered : NonDecreasing comments) {k : Nat}
    (isComment : comments[k]? = some comment) :
    k < (before token comments).length ↔ comment.offset < token.offset := by
  rw [← before_append_behind token comments] at isComment
  constructor
  · intro first
    rw [List.getElem?_append_left first] at isComment
    have accepted := List.mem_takeWhile_imp (List.mem_of_getElem? isComment)
    exact of_decide_eq_true accepted
  · intro earlier
    by_contra notFirst
    rw [List.getElem?_append_right (Nat.le_of_not_lt notFirst)] at isComment
    have later := le_offset_of_mem_drop_while ordered (List.mem_of_getElem? isComment)
    exact absurd earlier (Nat.not_lt_of_le later)

/-- A token stands behind exactly those comments that start before it or before an earlier token. -/
theorem merge_split (ordered : NonDecreasing comments) {j : Nat} (isToken : tokens[j]? = some token) :
    ∃ front back, merge tokens comments = front ++ .token token :: back ∧
      (Piece.tokens front).length = j ∧
      ∀ k comment, comments[k]? = some comment →
        (k < (Piece.comments front).length ↔
          ∃ i earlier, i ≤ j ∧ tokens[i]? = some earlier ∧ comment.offset < earlier.offset) := by
  induction tokens generalizing comments j with
  | nil => cases isToken
  | cons first tokens induction =>
      cases j with
      | zero =>
          cases isToken
          refine ⟨(before token comments).map .comment, _, rfl, by simp, ?_⟩
          intro k comment isComment
          rw [Piece.comments_map_comment, lt_length_before_iff _ ordered isComment]
          constructor
          · intro earlier
            exact ⟨0, token, Nat.le_refl 0, rfl, earlier⟩
          · rintro ⟨i, other, isFirst, found, earlier⟩
            rw [Nat.le_zero.mp isFirst] at found
            cases found
            exact earlier
      | succ j =>
          have restOrdered : NonDecreasing (behind first comments) :=
            ordered.sublist (List.dropWhile_sublist _)
          rcases induction restOrdered isToken with ⟨middle, back, same, count, stands⟩
          refine ⟨(before first comments).map .comment ++ .token first :: middle, back, ?_, ?_, ?_⟩
          · rw [merge, same, List.append_assoc, List.cons_append]
          · simp [count]
          · intro k comment isComment
            have atFirst := lt_length_before_iff first ordered isComment
            simp only [Piece.comments_append, Piece.comments_map_comment, Piece.comments_cons_token,
              List.length_append]
            by_cases early : k < (before first comments).length
            · constructor
              · intro _
                exact ⟨0, first, Nat.zero_le _, rfl, atFirst.mp early⟩
              · intro _
                exact Nat.lt_add_right _ early
            · -- The first token does not hold the comment up, so the others decide.
              have inRest := Nat.le_of_not_lt early
              rw [← before_append_behind first comments, List.getElem?_append_right inRest] at isComment
              rw [← Nat.sub_lt_iff_lt_add' inRest, stands _ comment isComment]
              constructor
              · rintro ⟨i, other, upTo, found, earlier⟩
                exact ⟨i + 1, other, Nat.succ_le_succ upTo, found, earlier⟩
              · rintro ⟨i, other, upTo, found, earlier⟩
                cases i with
                | zero =>
                    cases found
                    exact absurd (atFirst.mpr earlier) early
                | succ i => exact ⟨i, other, Nat.le_of_succ_le_succ upTo, found, earlier⟩

/-- What a recorder was given comes out merged: nothing is lost or doubled, and tokens and comments
keep their order among themselves. If the comments came in the order of the text, then a comment
stands before a token exactly if that token or one recorded before it starts behind the comment. -/
theorem interleaving_is_a_merge (pieces : List Piece) :
    (ofPieces pieces).tokens = Piece.tokens pieces ∧
      (ofPieces pieces).comments = Piece.comments pieces ∧
      ∃ merged : List Piece,
        (ofPieces pieces).interleaved = merged.map Piece.value ∧
        Piece.tokens merged = Piece.tokens pieces ∧
        Piece.comments merged = Piece.comments pieces ∧
        ((Piece.comments pieces).Pairwise (fun first second => first.offset ≤ second.offset) →
          ∀ j token, (Piece.tokens pieces)[j]? = some token →
            ∃ front back, merged = front ++ .token token :: back ∧
              (Piece.tokens front).length = j ∧
              ∀ k comment, (Piece.comments pieces)[k]? = some comment →
                (k < (Piece.comments front).length ↔ ∃ i earlier, i ≤ j ∧
                  (Piece.tokens pieces)[i]? = some earlier ∧ comment.offset < earlier.offset)) := by
  rw [of_pieces_eq]
  refine ⟨rfl, rfl, merge (Piece.tokens pieces) (Piece.comments pieces), ?_, ?_, ?_, ?_⟩
  · exact (value_merge _ _).symm
  · exact tokens_merge _ _
  · exact comments_merge _ _
  · intro ordered j token isToken
    exact merge_split ordered isToken

/-- Of two comments at one place and a third behind them, the token that starts at the third passes
the first two; a token that starts earlier, but comes later, stands behind the same comments. -/
theorem comments_wait_for_a_token_behind_them :
    let note : Nat → Token := fun offset => ⟨.comment, "\x7b\x7d", ⟨1, offset + 1, offset⟩⟩
    let word : Nat → Token := fun offset => ⟨.ident, "x", ⟨1, offset + 1, offset⟩⟩
    let pieces : List Piece :=
      [.comment (note 3), .token (word 3), .token (word 7), .comment (note 3), .token (word 1),
        .comment (note 7)]
    (Piece.comments pieces).Pairwise (fun first second => first.offset ≤ second.offset) ∧
      ∃ merged front back, (ofPieces pieces).interleaved = merged.map Piece.value ∧
        merged = front ++ .token (word 1) :: back ∧ (Piece.tokens front).length = 2 ∧
        1 < (Piece.comments front).length ∧ ¬ 2 < (Piece.comments front).length := by
  intro note word pieces
  have ordered : (Piece.comments pieces).Pairwise
      (fun first second => first.offset ≤ second.offset) := by decide
  rcases interleaving_is_a_merge pieces with ⟨-, -, merged, same, -, -, places⟩
  rcases places ordered 2 (word 1) rfl with ⟨front, back, split, count, stands⟩
  refine ⟨ordered, merged, front, back, same, split, count, ?_, ?_⟩
  · exact (stands 1 (note 3) rfl).mpr ⟨1, word 7, by decide, rfl, by decide⟩
  · intro passed
    rcases (stands 2 (note 7) rfl).mp passed with ⟨i, earlier, upTo, found, late⟩
    have none : ∀ i ≤ 2, ∀ earlier, (Piece.tokens pieces)[i]? = some earlier →
        ¬ (note 7).offset < earlier.offset := by
      decide
    exact none i upTo earlier found late

end Recorder

end TinyPascal
