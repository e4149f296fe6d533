import TinyPascal.Proofs.Parallel.View
import TinyPascal.Proofs.Step

/-!
# Two parses side by side

A relation between states that every move of the parser keeps is kept by every
step, and the values that come out look alike. The moves are few: to consume a
token, to refuse it, to warn, and to end a panic.
-/

namespace TinyPascal

set_option autoImplicit false

/-- States that look alike through `view` stay so, whatever move is made in
both. -/
structure Parallel (view : View) (same : ParseState → ParseState → Prop) : Prop where
  current : ∀ {s t}, same s t → view.look s.current = view.look t.current
  unread : ∀ {s t}, same s t → s.unread.length = t.unread.length
  panicking : ∀ {s t}, same s t → s.panicking = t.panicking
  advance : ∀ {s t}, same s t → s.unread ≠ [] → same s.advance t.advance
  refuse : ∀ {s t} (problem : SyntacticProblem), same s t → same (s.refuse problem) (t.refuse problem)
  warn : ∀ {s t} {token other : Token} (problem : SyntacticProblem), same s t →
    view.look token = view.look other → same (s.warn token problem) (t.warn other problem)
  calm : ∀ {s t}, same s t → same s.calm t.calm

/-- Taken in states that are the same, the two steps come to values that look
alike and to states that are the same. The steps may be bounded differently. -/
def Step.Alike (same : ParseState → ParseState → Prop) {n n' : Nat} {α β : Type} (look : α → β)
    (step : Step n α) (other : Step n' α) : Prop :=
  ∀ s t (bounded : s.unread.length < n) (bounded' : t.unread.length < n'), same s t →
    look (step s bounded).value = look (other t bounded').value ∧
      same (step s bounded).state (other t bounded').state

namespace Parallel

variable {view : View} {same : ParseState → ParseState → Prop}

theorem kind (parallel : Parallel view same) {s t : ParseState} (alike : same s t) :
    s.current.kind = t.current.kind :=
  view.kind_eq (parallel.current alike)

theorem unread_eq_nil (parallel : Parallel view same) {s t : ParseState} (alike : same s t) :
    s.unread = [] ↔ t.unread = [] := by
  rw [← List.length_eq_zero_iff, parallel.unread alike, List.length_eq_zero_iff]

theorem unread_cases (parallel : Parallel view same) {s t : ParseState} (alike : same s t) :
    (s.unread = [] ∧ t.unread = []) ∨
      ∃ arrival rest arrival' rest', s.unread = arrival :: rest ∧ t.unread = arrival' :: rest' ∧
        view.look arrival.token = view.look arrival'.token := by
  have tokens := parallel.current alike
  have lengths := parallel.unread alike
  unfold ParseState.current at tokens
  cases unread : s.unread with
  | nil =>
      rw [unread] at lengths
      exact .inl ⟨rfl, List.length_eq_zero_iff.mp lengths.symm⟩
  | cons arrival rest =>
      cases unread' : t.unread with
      | nil =>
          rw [unread, unread'] at lengths
          cases lengths
      | cons arrival' rest' =>
          rw [unread, unread'] at tokens
          exact .inr ⟨arrival, rest, arrival', rest', rfl, rfl, tokens⟩

theorem skip_to (parallel : Parallel view same) {s t : ParseState} (stops : Kind → Bool)
    (alike : same s t) : same (s.skipTo stops) (t.skipTo stops) := by
  generalize size : s.unread.length = count
  induction count generalizing s t with
  | zero =>
      have none : s.unread = [] := List.length_eq_zero_iff.mp size
      rw [ParseState.skip_to_of_stop (.inl none),
        ParseState.skip_to_of_stop (.inl ((parallel.unread_eq_nil alike).mp none))]
      exact alike
  | succ count induction =>
      have some : s.unread ≠ [] := by
        intro none
        rw [none] at size
        cases size
      cases stop : stops s.current.kind with
      | true =>
          rw [ParseState.skip_to_of_stop (.inr stop),
            ParseState.skip_to_of_stop (.inr (parallel.kind alike ▸ stop))]
          exact alike
      | false =>
          rw [ParseState.skip_to_of_go some stop,
            ParseState.skip_to_of_go (mt (parallel.unread_eq_nil alike).mpr some)
              (parallel.kind alike ▸ stop)]
          apply induction (parallel.advance alike some)
          rw [ParseState.unread_advance, List.length_tail, size]
          rfl

end Parallel

namespace Step

variable {view : View} {same : ParseState → ParseState → Prop} {n n' m m' : Nat} {α β γ δ : Type}

theorem alike_pure {look : α → γ} {value other : α} (alike : look value = look other) :
    Alike same look (pure value : Step n α) (pure other : Step n' α) := by
  intro s t bounded bounded' states
  exact ⟨alike, states⟩

theorem alike_bind {look : α → γ} {look' : β → δ} {step : Step n α} {other : Step n' α}
    {next : α → Step n β} {next' : α → Step n' β} (head : Alike same look step other)
    (tail : ∀ value value', look value = look value' → Alike same look' (next value) (next' value')) :
    Alike same look' (step >>= next) (other >>= next') := by
  intro s t bounded bounded' states
  obtain ⟨values, states⟩ := head s t bounded bounded' states
  exact tail _ _ values _ _ _ _ states

theorem alike_never {look : α → γ} {other : Step n' α} :
    Alike same look (never : Step 0 α) other := by
  intro s t bounded
  exact absurd bounded (Nat.not_lt_zero _)

theorem alike_zero {look : α → γ} {step : Step n α} {other : Step 0 α} :
    Alike same look step other := by
  intro s t _ bounded
  exact absurd bounded (Nat.not_lt_zero _)

theorem alike_within {look : α → γ} {step : Step n α} {other : Step n' α} (fits : m ≤ n)
    (fits' : m' ≤ n') (alike : Alike same look step other) :
    Alike same look (step.within fits) (other.within fits') := by
  intro s t bounded bounded' states
  exact alike s t _ _ states

variable (parallel : Parallel view same)

include parallel

theorem alike_current : Alike same view.look (current : Step n Token) (current : Step n' Token) := by
  intro s t bounded bounded' states
  exact ⟨parallel.current states, states⟩

theorem alike_sees (kinds : Kind → Bool) :
    Alike same id (sees kinds : Step n Bool) (sees kinds : Step n' Bool) := by
  intro s t bounded bounded' states
  exact ⟨congrArg kinds (parallel.kind states), states⟩

theorem alike_panicking : Alike same id (panicking : Step n Bool) (panicking : Step n' Bool) := by
  intro s t bounded bounded' states
  exact ⟨parallel.panicking states, states⟩

theorem alike_calm : Alike same id (calm : Step n Unit) (calm : Step n' Unit) := by
  intro s t bounded bounded' states
  exact ⟨rfl, parallel.calm states⟩

theorem alike_warn {token other : Token} (problem : SyntacticProblem)
    (alike : view.look token = view.look other) :
    Alike same id (warn token problem : Step n Unit) (warn other problem : Step n' Unit) := by
  intro s t bounded bounded' states
  exact ⟨rfl, parallel.warn problem states alike⟩

theorem alike_refuse (problem : SyntacticProblem) :
    Alike same id (refuse problem : Step n Unit) (refuse problem : Step n' Unit) := by
  intro s t bounded bounded' states
  exact ⟨rfl, parallel.refuse problem states⟩

theorem alike_recover (stops : Kind → Bool) :
    Alike same id (recover stops : Step n Unit) (recover stops : Step n' Unit) := by
  intro s t bounded bounded' states
  refine ⟨rfl, ?_⟩
  unfold recover
  rw [parallel.panicking states]
  split
  · exact parallel.skip_to stops (parallel.calm states)
  · exact states

theorem alike_take (kinds : Kind → Bool) :
    Alike same (Option.map view.look) (take kinds : Step n (Option Token))
      (take kinds : Step n' (Option Token)) := by
  intro s t bounded bounded' states
  rcases parallel.unread_cases states with ⟨none, none'⟩ |
    ⟨arrival, rest, arrival', rest', unread, unread', alike⟩
  · obtain ⟨value, state⟩ := take_of_nil (n := n) kinds bounded none
    obtain ⟨value', state'⟩ := take_of_nil (n := n') kinds bounded' none'
    rw [value, value', state, state']
    exact ⟨rfl, states⟩
  · cases faced : kinds arrival.token.kind with
    | false =>
        obtain ⟨value, state⟩ := take_of_not_faces (n := n) bounded
          (s.current_of_unread unread ▸ faced)
        obtain ⟨value', state'⟩ := take_of_not_faces (n := n') bounded'
          (t.current_of_unread unread' ▸ view.kind_eq alike ▸ faced)
        rw [value, value', state, state']
        exact ⟨rfl, states⟩
    | true =>
        obtain ⟨value, state⟩ := take_of_faces (n := n) bounded unread faced
        obtain ⟨value', state'⟩ :=
          take_of_faces (n := n') bounded' unread' (view.kind_eq alike ▸ faced)
        rw [value, value', state, state']
        exact ⟨congrArg some alike, parallel.advance states (by simp [unread])⟩

theorem alike_take_bind {look : α → γ} (kinds : Kind → Bool) {next : Option Token → Step n α}
    {next' : Option Token → Step n' α}
    (found : ∀ token token', view.look token = view.look token' →
      Alike same look (next (some token)) (next' (some token')))
    (missing : Alike same look (next none) (next' none)) :
    Alike same look (take kinds >>= next) (take kinds >>= next') := by
  apply alike_bind (alike_take parallel kinds)
  intro token token' tokens
  rcases token with _ | token <;> rcases token' with _ | token'
  · exact missing
  · cases tokens
  · cases tokens
  · exact found token token' (Option.some.inj tokens)

theorem alike_consuming {look : α → γ} (kinds : Kind → Bool) {behind : Token → Step n α}
    {behind' : Token → Step n' α} {otherwise : Step (n + 1) α} {otherwise' : Step (n' + 1) α}
    (found : ∀ token token', view.look token = view.look token' →
      Alike same look (behind token) (behind' token'))
    (missing : Alike same look otherwise otherwise') :
    Alike same look (consuming kinds behind otherwise) (consuming kinds behind' otherwise') := by
  intro s t bounded bounded' states
  rcases parallel.unread_cases states with ⟨none, none'⟩ |
    ⟨arrival, rest, arrival', rest', unread, unread', alike⟩
  · rw [consuming_of_nil bounded none, consuming_of_nil bounded' none']
    exact missing s t bounded bounded' states
  · cases faced : kinds arrival.token.kind with
    | false =>
        rw [consuming_of_not_faces bounded (s.current_of_unread unread ▸ faced),
          consuming_of_not_faces bounded'
            (t.current_of_unread unread' ▸ view.kind_eq alike ▸ faced)]
        exact missing s t bounded bounded' states
    | true =>
        obtain ⟨fits, value, state⟩ := consuming_of_faces behind otherwise bounded unread faced
        obtain ⟨fits', value', state'⟩ := consuming_of_faces behind' otherwise' bounded' unread'
          (view.kind_eq alike ▸ faced)
        rw [value, value', state, state']
        exact found _ _ alike _ _ fits fits' (parallel.advance states (by simp [unread]))

def lookRow (look : α → γ) (row : Row α) : List γ × Bool := (row.items.map look, row.complete)

theorem alike_row {look : α → γ} (kinds : Kind → Bool) {item : Token → Rule n α}
    {item' : Token → Rule n' α}
    (each : ∀ token token', view.look token = view.look token' →
      Alike same (Option.map look) (item token).run (item' token').run) :
    ∀ (m m' : Nat) (fits : m ≤ n + 1) (fits' : m' ≤ n' + 1),
      Alike same (lookRow look) (row kinds item m fits) (row kinds item' m' fits') := by
  intro m
  induction m with
  | zero =>
      intro m' fits fits'
      exact alike_never
  | succ m induction =>
      intro m' fits fits'
      cases m' with
      | zero => exact alike_zero
      | succ m' =>
          unfold row
          refine alike_consuming parallel kinds (fun token token' alike => ?_) (alike_pure rfl)
          apply alike_bind (alike_within _ _ (each token token' alike))
          intro first first' values
          rcases first with _ | first <;> rcases first' with _ | first'
          · exact alike_pure rfl
          · cases values
          · cases values
          · apply alike_bind (induction _ _ _)
            intro others others' rows
            apply alike_pure
            simp only [lookRow, Prod.mk.injEq] at rows
            simp only [lookRow, List.map_cons, rows, Option.some.inj values]

end Step

end TinyPascal
