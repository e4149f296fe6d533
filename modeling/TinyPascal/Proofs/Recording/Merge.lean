import Mathlib.Data.List.Sort
import Mathlib.Data.List.TakeWhile
import TinyPascal.Recorder

/-!
# Merging tokens and comments

Putting comments back between tokens loses none of them, and what is merged from two
rows in the order of the text is in that order again.
-/

namespace TinyPascal

set_option autoImplicit false

def InOrder (tokens : List Token) : Prop :=
  tokens.Pairwise fun first second => first.offset < second.offset

/-- No token starts before an earlier one. -/
def NonDecreasing (tokens : List Token) : Prop :=
  tokens.Pairwise fun first second => first.offset ≤ second.offset

theorem InOrder.non_decreasing {tokens : List Token} (ordered : InOrder tokens) :
    NonDecreasing tokens :=
  ordered.imp Nat.le_of_lt

namespace InOrder

variable {tokens others : List Token}

theorem eq_of_offset_eq (ordered : InOrder tokens) {first second : Token} (isFirst : first ∈ tokens)
    (isSecond : second ∈ tokens) (same : first.offset = second.offset) : first = second := by
  have distinct : (tokens.map Token.offset).Nodup :=
    List.pairwise_map.mpr (ordered.imp fun before => before.ne)
  exact List.inj_on_of_nodup_map distinct isFirst isSecond same

theorem eq_of_perm (ordered : InOrder tokens) (othersOrdered : InOrder others)
    (same : tokens.Perm others) : tokens = others := by
  apply same.eq_of_pairwise _ ordered othersOrdered
  intro first second _ _ before behind
  exact absurd behind before.asymm

theorem sublist_of_subperm (ordered : InOrder tokens) (othersOrdered : InOrder others)
    (among : tokens.Subperm others) : tokens.Sublist others := by
  rcases among with ⟨some, same, sublist⟩
  have someOrdered : InOrder some := othersOrdered.sublist sublist
  rw [← someOrdered.eq_of_perm ordered same]
  exact sublist

end InOrder

namespace Recorder

open scoped List

theorem interleave_perm (tokens comments : List Token) :
    (interleave tokens comments).Perm (tokens ++ comments) := by
  induction tokens generalizing comments with
  | nil => exact .refl _
  | cons token tokens induction =>
      let earlier := fun comment : Token => decide (comment.offset < token.offset)
      have whole : comments.takeWhile earlier ++ comments.dropWhile earlier = comments :=
        List.takeWhile_append_dropWhile
      calc comments.takeWhile earlier ++ token :: interleave tokens (comments.dropWhile earlier)
        _ ~ token :: (comments.takeWhile earlier ++
              interleave tokens (comments.dropWhile earlier)) := List.perm_middle
        _ ~ token :: (comments.takeWhile earlier ++ (tokens ++ comments.dropWhile earlier)) :=
          ((induction _).append_left _).cons token
        _ ~ token :: (tokens ++ (comments.takeWhile earlier ++ comments.dropWhile earlier)) :=
          (List.perm_append_comm_assoc _ _ _).cons token
        _ = token :: tokens ++ comments := by rw [whole, List.cons_append]

theorem mem_interleave {token : Token} {tokens comments : List Token} :
    token ∈ interleave tokens comments ↔ token ∈ tokens ∨ token ∈ comments := by
  rw [(interleave_perm tokens comments).mem_iff, List.mem_append]

theorem le_offset_of_mem_drop_while {token comment : Token} {comments : List Token}
    (ordered : NonDecreasing comments)
    (behind : comment ∈ comments.dropWhile fun comment => comment.offset < token.offset) :
    token.offset ≤ comment.offset := by
  induction comments with
  | nil => cases behind
  | cons first others induction =>
      rcases List.pairwise_cons.mp ordered with ⟨firstBefore, othersOrdered⟩
      by_cases earlier : first.offset < token.offset
      · rw [List.dropWhile_cons_of_pos (by simpa using earlier)] at behind
        exact induction othersOrdered behind
      · rw [List.dropWhile_cons_of_neg (by simpa using earlier)] at behind
        have notEarlier : token.offset ≤ first.offset := Nat.le_of_not_lt earlier
        rcases List.mem_cons.mp behind with rfl | later
        · exact notEarlier
        · exact notEarlier.trans (firstBefore comment later)

/-- Tokens and comments in the order of the text are merged into that order, if no token
starts where a comment does. -/
theorem in_order_interleave {tokens comments : List Token} (ordered : InOrder tokens)
    (commentsOrdered : InOrder comments)
    (apart : ∀ token ∈ tokens, ∀ comment ∈ comments, token.offset ≠ comment.offset) :
    InOrder (interleave tokens comments) := by
  induction tokens generalizing comments with
  | nil => exact commentsOrdered
  | cons token tokens induction =>
      rcases List.pairwise_cons.mp ordered with ⟨tokenBefore, tokensOrdered⟩
      let earlier := fun comment : Token => decide (comment.offset < token.offset)
      have whole : comments.takeWhile earlier ++ comments.dropWhile earlier = comments :=
        List.takeWhile_append_dropWhile
      have split := commentsOrdered
      rw [InOrder, ← whole, List.pairwise_append] at split
      rcases split with ⟨frontOrdered, backOrdered, across⟩
      have frontBefore : ∀ comment ∈ comments.takeWhile earlier, comment.offset < token.offset := by
        intro comment member
        have accepted : earlier comment = true := List.mem_takeWhile_imp member
        exact of_decide_eq_true accepted
      have backBehind : ∀ comment ∈ comments.dropWhile earlier, token.offset < comment.offset := by
        intro comment member
        have listed : comment ∈ comments := (List.dropWhile_sublist earlier).subset member
        exact Nat.lt_of_le_of_ne (le_offset_of_mem_drop_while commentsOrdered.non_decreasing member)
          (apart token List.mem_cons_self comment listed)
      have restApart : ∀ token ∈ tokens, ∀ comment ∈ comments.dropWhile earlier,
          token.offset ≠ comment.offset := by
        intro later member comment found
        exact apart later (List.mem_cons_of_mem token member) comment
          ((List.dropWhile_sublist earlier).subset found)
      have restOrdered : InOrder (interleave tokens (comments.dropWhile earlier)) :=
        induction tokensOrdered backOrdered restApart
      have tokenFirst : ∀ other ∈ interleave tokens (comments.dropWhile earlier),
          token.offset < other.offset := by
        intro other member
        rcases mem_interleave.mp member with member | member
        · exact tokenBefore other member
        · exact backBehind other member
      apply List.pairwise_append.mpr
      refine ⟨frontOrdered, List.pairwise_cons.mpr ⟨tokenFirst, restOrdered⟩, ?_⟩
      intro comment front other member
      rcases List.mem_cons.mp member with rfl | member
      · exact frontBefore comment front
      · exact (frontBefore comment front).trans (tokenFirst other member)

end Recorder

end TinyPascal
