import TinyPascal.Parser.Step

/-!
# How single steps run

What the steps do that look at the next token, by whether they find what they
look for.
-/

namespace TinyPascal

set_option autoImplicit false

namespace ParseState

theorem current_of_unread {s : ParseState} {arrival : Arrival} {rest : List Arrival}
    (unread : s.unread = arrival :: rest) : s.current = arrival.token := by
  rw [current, unread]

theorem skip_to_of_stop {s : ParseState} {stops : Kind → Bool}
    (stopped : s.unread = [] ∨ stops s.current.kind = true) : s.skipTo stops = s := by
  unfold skipTo
  cases unread : s.unread with
  | nil => rfl
  | cons arrival rest =>
      rw [current, unread] at stopped
      have stop : stops arrival.token.kind = true := stopped.resolve_left (by simp)
      simp [stop]

theorem skip_to_of_go {s : ParseState} {stops : Kind → Bool} (more : s.unread ≠ [])
    (goes : stops s.current.kind = false) : s.skipTo stops = s.advance.skipTo stops := by
  unfold skipTo
  cases unread : s.unread with
  | nil => exact absurd unread more
  | cons arrival rest =>
      rw [current, unread] at goes
      simp only [] at goes
      simp [goes, unread]

end ParseState

namespace Step

variable {n : Nat} {α : Type}

theorem take_of_nil (kinds : Kind → Bool) {s : ParseState} (bounded : s.unread.length < n)
    (none : s.unread = []) :
    (take kinds s bounded).value = .none ∧ (take kinds s bounded).state = s := by
  unfold take
  split
  · exact ⟨rfl, rfl⟩
  · next some => exact absurd (some.symm.trans none) (by simp)

theorem take_of_faces {kinds : Kind → Bool} {s : ParseState} {arrival : Arrival}
    {rest : List Arrival} (bounded : s.unread.length < n) (unread : s.unread = arrival :: rest)
    (faced : kinds arrival.token.kind = true) :
    (take kinds s bounded).value = some arrival.token ∧
      (take kinds s bounded).state = s.advance := by
  unfold take
  split
  · next empty => exact absurd (empty.symm.trans unread) (by simp)
  · next other others same =>
    cases same.symm.trans unread
    simp [faced]

theorem take_of_not_faces {kinds : Kind → Bool} {s : ParseState} (bounded : s.unread.length < n)
    (missed : kinds s.current.kind = false) :
    (take kinds s bounded).value = none ∧ (take kinds s bounded).state = s := by
  unfold take
  split
  · exact ⟨rfl, rfl⟩
  · next arrival rest unread =>
    rw [ParseState.current, unread] at missed
    simp [missed]

theorem consuming_of_nil {kinds : Kind → Bool} {behind : Token → Step n α}
    {otherwise : Step (n + 1) α} {s : ParseState} (bounded : s.unread.length < n + 1)
    (none : s.unread = []) :
    consuming kinds behind otherwise s bounded = otherwise s bounded := by
  unfold consuming
  split
  · rfl
  · next some => exact absurd (some.symm.trans none) (by simp)

theorem consuming_of_faces {kinds : Kind → Bool} (behind : Token → Step n α)
    (otherwise : Step (n + 1) α) {s : ParseState} {arrival : Arrival} {rest : List Arrival}
    (bounded : s.unread.length < n + 1) (unread : s.unread = arrival :: rest)
    (faced : kinds arrival.token.kind = true) :
    ∃ fits, (consuming kinds behind otherwise s bounded).value =
        (behind arrival.token s.advance fits).value ∧
      (consuming kinds behind otherwise s bounded).state =
        (behind arrival.token s.advance fits).state := by
  have fits : s.advance.unread.length < n := by
    rw [ParseState.unread_advance, unread]
    rw [unread] at bounded
    exact Nat.lt_of_succ_lt_succ bounded
  refine ⟨fits, ?_⟩
  unfold consuming
  split
  · next empty => exact absurd (empty.symm.trans unread) (by simp)
  · next other others same =>
    cases same.symm.trans unread
    simp [faced]

theorem consuming_of_not_faces {kinds : Kind → Bool} {behind : Token → Step n α}
    {otherwise : Step (n + 1) α} {s : ParseState} (bounded : s.unread.length < n + 1)
    (missed : kinds s.current.kind = false) :
    consuming kinds behind otherwise s bounded = otherwise s bounded := by
  unfold consuming
  split
  · rfl
  · next arrival rest unread =>
    rw [ParseState.current, unread] at missed
    simp [missed]

/-- What holds of the second of two steps, wherever the first one leads. -/
theorem bind_cases {β : Type} (step : Step n α) {next : α → Step n β} {s : ParseState}
    (bounded : s.unread.length < n) {motive : β → ParseState → Prop}
    (held : ∀ (value : α) (t : ParseState) (below : t.unread.length < n),
      (step s bounded).value = value → (step s bounded).state = t →
      motive (next value t below).value (next value t below).state) :
    motive ((step >>= next) s bounded).value ((step >>= next) s bounded).state :=
  held _ _ _ rfl rfl

theorem take_cases (kinds : Kind → Bool) {s : ParseState} (bounded : s.unread.length < n)
    {motive : Option Token → ParseState → Prop}
    (missed : s.unread = [] ∨ kinds s.current.kind = false → motive none s)
    (found : ∀ (arrival : Arrival) (rest : List Arrival), s.unread = arrival :: rest →
      kinds arrival.token.kind = true → motive (some arrival.token) s.advance) :
    motive (take kinds s bounded).value (take kinds s bounded).state := by
  cases unread : s.unread with
  | nil =>
      rcases take_of_nil kinds bounded unread with ⟨value, state⟩
      rw [value, state]
      exact missed (.inl unread)
  | cons arrival rest =>
      cases faced : kinds arrival.token.kind with
      | false =>
          have passed : kinds s.current.kind = false := by
            rw [s.current_of_unread unread, faced]
          rcases take_of_not_faces bounded passed with ⟨value, state⟩
          rw [value, state]
          exact missed (.inr passed)
      | true =>
          rcases take_of_faces bounded unread faced with ⟨value, state⟩
          rw [value, state]
          exact found arrival rest unread faced

theorem expect_cases {kind : Kind} (problem : SyntacticProblem) {s : ParseState}
    (bounded : s.unread.length < n) {motive : Option Token → ParseState → Prop}
    (missed : motive none (s.refuse problem))
    (found : ∀ (arrival : Arrival) (rest : List Arrival), s.unread = arrival :: rest →
      arrival.token.kind = kind → motive (some arrival.token) s.advance) :
    motive ((Rule.expect kind problem : Rule n Token).run s bounded).value
      ((Rule.expect kind problem : Rule n Token).run s bounded).state := by
  have either := take_cases (· = kind) bounded
    (motive := fun token t =>
      (∃ arrival rest, s.unread = arrival :: rest ∧ arrival.token.kind = kind ∧
        token = some arrival.token ∧ t = s.advance) ∨ (token = none ∧ t = s))
    (fun _ => .inr ⟨rfl, rfl⟩)
    fun arrival rest unread faced =>
      .inl ⟨arrival, rest, unread, of_decide_eq_true faced, rfl, rfl⟩
  unfold Rule.expect Rule.expectAny
  rw [OptionT.run_bind]
  unfold Option.elimM
  apply bind_cases (Rule.ofStep (take (· = kind))).run bounded
  intro read t below given state
  have value : some (take (· = kind) s bounded).value = read := given
  have left : (take (· = kind) s bounded).state = t := state
  rcases either with ⟨arrival, rest, unread, faced, token, advanced⟩ | ⟨none, same⟩
  · rw [token] at value
    rw [advanced] at left
    subst value left
    exact found arrival rest unread faced
  · rw [none] at value
    rw [same] at left
    subst value left
    exact missed

theorem consuming_cases {kinds : Kind → Bool} {behind : Token → Step n α}
    {otherwise : Step (n + 1) α} {s : ParseState} (bounded : s.unread.length < n + 1)
    {motive : α → ParseState → Prop}
    (missed : s.unread = [] ∨ kinds s.current.kind = false →
      motive (otherwise s bounded).value (otherwise s bounded).state)
    (found : ∀ (arrival : Arrival) (rest : List Arrival) (below : s.advance.unread.length < n),
      s.unread = arrival :: rest → kinds arrival.token.kind = true →
      motive (behind arrival.token s.advance below).value
        (behind arrival.token s.advance below).state) :
    motive (consuming kinds behind otherwise s bounded).value
      (consuming kinds behind otherwise s bounded).state := by
  cases unread : s.unread with
  | nil =>
      rw [consuming_of_nil bounded unread]
      exact missed (.inl unread)
  | cons arrival rest =>
      cases faced : kinds arrival.token.kind with
      | false =>
          have passed : kinds s.current.kind = false := by
            rw [s.current_of_unread unread, faced]
          rw [consuming_of_not_faces bounded passed]
          exact missed (.inr passed)
      | true =>
          rcases consuming_of_faces behind otherwise bounded unread faced with ⟨below, value, state⟩
          rw [value, state]
          exact found arrival rest below unread faced

end Step

end TinyPascal
