import Mathlib.Data.List.TakeWhile
import TinyPascal.Proofs.Step

/-!
# Loops turn by turn

Every loop of the grammar is a row of items: procedures, groups of variables and of
parameters, commands, expressions between commas, terms and factors between operators.
Each turn of such a loop consumes the token that opens it, so a loop makes no more turns
than there are tokens. A recovery is the one other loop; it stops at the first token of
its set, which it leaves unread.
-/

namespace TinyPascal

set_option autoImplicit false

namespace Step

variable {n : Nat} {α : Type}

/-- The turns of a loop from the first state to the last. A turn consumes a token of a
kind in `opens` and reads an item behind it. There is a further turn only behind an item
that was read, and fewer tokens are unread there. -/
inductive Turns (opens : Kind → Bool) (item : Token → Rule n α) :
    ParseState → Row α → ParseState → Prop
  | finished {s : ParseState} (closed : s.unread = [] ∨ opens s.current.kind = false) :
      Turns opens item s ⟨[], true⟩ s
  | broken {s t : ParseState} {arrival : Arrival} {rest : List Arrival}
      (unread : s.unread = arrival :: rest) (opened : opens arrival.token.kind = true)
      (bounded : s.advance.unread.length < n)
      (abandoned : ((item arrival.token).run s.advance bounded).value = none)
      (left : ((item arrival.token).run s.advance bounded).state = t) :
      Turns opens item s ⟨[], false⟩ t
  | turn {s middle t : ParseState} {arrival : Arrival} {rest : List Arrival} {first : α}
      {others : List α} {complete : Bool} (unread : s.unread = arrival :: rest)
      (opened : opens arrival.token.kind = true) (bounded : s.advance.unread.length < n)
      (read : ((item arrival.token).run s.advance bounded).value = some first)
      (left : ((item arrival.token).run s.advance bounded).state = middle)
      (fewer : middle.unread.length < s.unread.length)
      (further : Turns opens item middle ⟨others, complete⟩ t) :
      Turns opens item s ⟨first :: others, complete⟩ t

variable {opens : Kind → Bool} {item : Token → Rule n α} {s t : ParseState} {row : Row α}

theorem Turns.length_items (turns : Turns opens item s row t) :
    row.items.length + t.unread.length ≤ s.unread.length := by
  induction turns with
  | finished => exact Nat.le_of_eq (Nat.zero_add _)
  | @broken s t arrival rest unread opened bounded abandoned left =>
      have noMore := ((item arrival.token).run s.advance bounded).noMore
      rw [left, ParseState.unread_advance, List.length_tail] at noMore
      show 0 + t.unread.length ≤ s.unread.length
      omega
  | @turn s middle t arrival rest first others complete unread opened bounded read left fewer
      further induction =>
      show others.length + 1 + t.unread.length ≤ s.unread.length
      have behind : others.length + t.unread.length ≤ middle.unread.length := induction
      omega

theorem turns_row (opens : Kind → Bool) (item : Token → Rule n α) (m : Nat) (fits : m ≤ n + 1)
    (s : ParseState) (bounded : s.unread.length < m) :
    Turns opens item s (Step.row opens item m fits s bounded).value
      (Step.row opens item m fits s bounded).state := by
  induction m generalizing s with
  | zero => exact absurd bounded (Nat.not_lt_zero _)
  | succ m induction =>
      unfold row
      refine consuming_cases bounded (motive := Turns opens item s) Turns.finished ?_
      intro arrival rest below unread opened
      have fewer : s.advance.unread.length < s.unread.length := by
        rw [ParseState.unread_advance, unread]
        exact Nat.lt_succ_self _
      refine bind_cases _ below (motive := Turns opens item s) ?_
      intro value middle shorter read left
      have inner := Nat.le_of_succ_le_succ fits
      have noMore := (Parsing.within inner (item arrival.token).run s.advance below).noMore
      rw [left] at noMore
      cases value with
      | none => exact .broken unread opened _ read left
      | some first =>
          exact .turn unread opened _ read left (Nat.lt_of_le_of_lt noMore fewer)
            (induction _ middle shorter)

end Step

namespace ParseState

theorem unread_skip_to (s : ParseState) (stops : Kind → Bool) :
    (s.skipTo stops).unread = s.unread.dropWhile fun arrival => !stops arrival.token.kind := by
  generalize size : s.unread.length = count
  induction count generalizing s with
  | zero =>
      have none : s.unread = [] := List.length_eq_zero_iff.mp size
      rw [skip_to_of_stop (.inl none), none]
      rfl
  | succ count induction =>
      rcases List.exists_cons_of_length_eq_add_one size with ⟨arrival, rest, unread⟩
      cases stop : stops arrival.token.kind with
      | true =>
          rw [skip_to_of_stop (.inr (s.current_of_unread unread ▸ stop)), unread]
          simp [stop]
      | false =>
          have more : s.unread ≠ [] := unread ▸ List.cons_ne_nil arrival rest
          have shorter : s.advance.unread.length = count := by
            rw [unread_advance, List.length_tail, size]
            rfl
          rw [skip_to_of_go more (s.current_of_unread unread ▸ stop), induction s.advance shorter,
            unread_advance, unread]
          simp [stop]

/-- A recovery discards tokens up to the first of a kind in `stops`, which it leaves unread,
or up to the end of the text. -/
theorem recover_stops {n : Nat} {s : ParseState} (stops : Kind → Bool)
    (bounded : s.unread.length < n) (panics : s.panicking = true) :
    ∃ skipped, s.unread = skipped ++ (Step.recover stops s bounded).state.unread ∧
      (∀ arrival ∈ skipped, stops arrival.token.kind = false) ∧
      ∀ arrival ∈ (Step.recover stops s bounded).state.unread.head?,
        stops arrival.token.kind = true := by
  have state : (Step.recover stops s bounded).state = s.calm.skipTo stops := by
    simp [Step.recover, panics]
  rw [state, unread_skip_to, unread_calm]
  refine ⟨s.unread.takeWhile fun arrival => !stops arrival.token.kind, ?_, ?_, ?_⟩
  · exact List.takeWhile_append_dropWhile.symm
  · intro arrival member
    have passed := List.mem_takeWhile_imp member
    simpa using passed
  · intro arrival first
    have stopped := List.head?_dropWhile_not
      (fun arrival : Arrival => !stops arrival.token.kind) s.unread
    rw [Option.mem_def.mp first] at stopped
    simpa using stopped

end ParseState

end TinyPascal
