import TinyPascal.Proofs.Step

/-!
# A careful way through a text

Recovery may stop at the very token that was refused, and hand it to another rule. A
discipline keeps track of this: while reading goes on, it says of which kinds a token may be
that has been refused before. A step that finds such a token has to consume it; only a token
that is above suspicion may be refused.

`Step.Meets` is the contract of a step: what it needs before and what it ensures
afterwards. The contracts of the single moves follow from the laws of a discipline.
-/

namespace TinyPascal

set_option autoImplicit false

/-- The stages of a careful parse. Under `held kinds` reading goes on, and the token looked at
can have been refused before only if it is of a kind in `kinds`. Under `behind token` it is
`token` that was consumed last. Under `broken` an error has been recorded from which the
parse has not recovered. -/
structure Discipline where
  held : (Kind → Bool) → ParseState → Prop
  behind : Token → ParseState → Prop
  broken : ParseState → Prop
  calm_of_held : ∀ {kinds s}, held kinds s → s.panicking = false
  panicking_of_broken : ∀ {s}, broken s → s.panicking = true
  narrow : ∀ {kinds others : Kind → Bool} {s}, held kinds s →
    (kinds s.current.kind = true → others s.current.kind = true) → held others s
  atEnd : ∀ {kinds others s}, held kinds s → s.unread = [] → held others s
  advance : ∀ {kinds s arrival rest}, held kinds s → s.unread = arrival :: rest →
    behind arrival.token s.advance
  passed : ∀ {token s}, behind token s → held (fun _ => false) s
  refuse : ∀ {s} (problem : SyntacticProblem), held (fun _ => false) s → broken (s.refuse problem)
  warnBehind : ∀ {token s} (problem : SyntacticProblem), behind token s →
    held (fun _ => false) (s.warn token problem)
  warnHere : ∀ {s} (problem : SyntacticProblem), held (fun _ => false) s →
    held (fun _ => false) (s.warn s.current problem)
  calm : ∀ {s}, broken s → held (fun _ => true) s.calm

/-- From every state that meets `before`, the step leads to a value and a state that meet
`after`. -/
def Step.Meets {n : Nat} {α : Type} (before : ParseState → Prop) (step : Step n α)
    (after : α → ParseState → Prop) : Prop :=
  ∀ (s : ParseState) (bounded : s.unread.length < n), before s →
    after (step s bounded).value (step s bounded).state

namespace Step

variable {n m : Nat} {α β : Type} {before : ParseState → Prop}

theorem meets_pure {after : α → ParseState → Prop} {value : α}
    (ready : ∀ s, before s → after value s) : Meets before (pure value : Step n α) after := by
  intro s bounded start
  exact ready s start

theorem meets_bind {middle : α → ParseState → Prop} {after : β → ParseState → Prop}
    {step : Step n α} {next : α → Step n β} (first : Meets before step middle)
    (second : ∀ value, Meets (middle value) (next value) after) :
    Meets before (step >>= next) after := by
  intro s bounded start
  exact second _ _ _ (first s bounded start)

theorem Meets.weaken {other : ParseState → Prop} {after final : α → ParseState → Prop}
    {step : Step n α} (meets : Meets before step after) (enough : ∀ s, other s → before s)
    (implies : ∀ value s, after value s → final value s) : Meets other step final := by
  intro s bounded start
  exact implies _ _ (meets s bounded (enough s start))

theorem meets_never {after : α → ParseState → Prop} : Meets before (never : Step 0 α) after := by
  intro s bounded
  exact absurd bounded (Nat.not_lt_zero _)

theorem meets_within {after : α → ParseState → Prop} {step : Step n α} (fits : m ≤ n)
    (meets : Meets before step after) : Meets before (step.within fits) after := by
  intro s bounded start
  exact meets s _ start

theorem meets_sees (kinds : Kind → Bool) :
    Meets before (sees kinds : Step n Bool) fun answer s =>
      before s ∧ kinds s.current.kind = answer := by
  intro s bounded start
  exact ⟨start, rfl⟩

theorem meets_panicking :
    Meets before (panicking : Step n Bool) fun answer s => before s ∧ s.panicking = answer := by
  intro s bounded start
  exact ⟨start, rfl⟩

theorem meets_current :
    Meets before (current : Step n Token) fun token s => before s ∧ s.current = token := by
  intro s bounded start
  exact ⟨start, rfl⟩

end Step

namespace Discipline

open Step

variable (d : Discipline) {n : Nat} {α β : Type} {kinds : Kind → Bool} {s : ParseState}

/-- No token that was refused before is looked at. -/
abbrev clear (s : ParseState) : Prop := d.held (fun _ => false) s

/-- Reading goes on under `held kinds`, or an error was recorded. -/
def ends (kinds : Kind → Bool) (s : ParseState) : Prop := d.held kinds s ∨ d.broken s

/-- What a rule comes to: it has read something and reading goes on, or it was abandoned and
an error was recorded. -/
def verdict (value : Option α) (s : ParseState) : Prop :=
  value.elim (d.broken s) fun _ => d.clear s

variable {d}

theorem held_of_ends (reached : d.ends kinds s) (quiet : s.panicking = false) : d.held kinds s := by
  rcases reached with held | broken
  · exact held
  · rw [d.panicking_of_broken broken] at quiet
    cases quiet

theorem broken_of_ends (reached : d.ends kinds s) (loud : s.panicking = true) : d.broken s := by
  rcases reached with held | broken
  · rw [d.calm_of_held held] at loud
    cases loud
  · exact broken

theorem mono {others : Kind → Bool} (held : d.held kinds s)
    (wider : ∀ kind, kinds kind = true → others kind = true) : d.held others s :=
  d.narrow held (wider _)

theorem held_of_clear (clear : d.clear s) : d.held kinds s :=
  mono clear fun _ none => absurd none (by decide)

theorem ends_of_verdict {value : Option α} (reached : d.verdict value s) : d.ends kinds s := by
  cases value with
  | none => exact .inr reached
  | some _ => exact .inl (held_of_clear reached)

/-- What is left of a suspicion once the token is known to be of no kind in `taken`. -/
theorem held_of_missed {taken : Kind → Bool} (held : d.held kinds s)
    (missed : s.unread = [] ∨ taken s.current.kind = false) :
    d.held (fun kind => kinds kind && !taken kind) s := by
  rcases missed with none | missed
  · exact d.atEnd held none
  · apply d.narrow held
    intro suspected
    rw [suspected, missed]
    rfl

/-- Skipping ends at a token of a kind in `stops`. It may be the refused one. -/
theorem held_skip_to (held : d.held (fun _ => true) s) (stops : Kind → Bool) :
    d.held stops (s.skipTo stops) := by
  generalize size : s.unread.length = count
  induction count generalizing s with
  | zero =>
      have none : s.unread = [] := List.length_eq_zero_iff.mp size
      rw [ParseState.skip_to_of_stop (.inl none)]
      exact d.atEnd held none
  | succ count induction =>
      rcases List.exists_cons_of_length_eq_add_one size with ⟨arrival, rest, unread⟩
      cases stop : stops s.current.kind with
      | true =>
          rw [ParseState.skip_to_of_stop (.inr stop)]
          exact d.narrow held fun _ => stop
      | false =>
          have more : s.unread ≠ [] := unread ▸ List.cons_ne_nil arrival rest
          rw [ParseState.skip_to_of_go more stop]
          apply induction (held_of_clear (d.passed (d.advance held unread)))
          rw [ParseState.unread_advance, List.length_tail, size]
          rfl

theorem meets_recover (stops : Kind → Bool) :
    Meets (d.ends (fun _ => false)) (recover stops : Step n Unit) fun _ => d.held stops := by
  intro s bounded start
  unfold recover
  rcases start with clear | broken
  · rw [if_neg (by simp [d.calm_of_held clear])]
    exact held_of_clear clear
  · rw [if_pos (d.panicking_of_broken broken)]
    exact held_skip_to (d.calm broken) stops

theorem meets_refuse (problem : SyntacticProblem) :
    Meets d.clear (Step.refuse problem : Step n Unit) fun _ => d.broken := by
  intro s bounded clear
  exact d.refuse problem clear

theorem meets_calm (kinds : Kind → Bool) :
    Meets (fun s => d.ends (fun _ => false) s ∧ kinds s.current.kind = true) (Step.calm : Step n Unit)
      fun _ => d.held kinds := by
  intro s bounded start
  rcases start with ⟨clear | broken, faced⟩
  · have same : s.calm = s := by
      have quiet := d.calm_of_held clear
      cases s
      cases quiet
      rfl
    show d.held kinds s.calm
    rw [same]
    exact held_of_clear clear
  · exact d.narrow (d.calm broken) fun _ => faced

theorem meets_take (taken : Kind → Bool) :
    Meets (d.held kinds) (take taken : Step n (Option Token)) fun found s =>
      found.elim (d.held (fun kind => kinds kind && !taken kind) s) fun token =>
        d.behind token s := by
  intro s bounded held
  refine take_cases taken bounded (motive := fun found s =>
    found.elim (d.held (fun kind => kinds kind && !taken kind) s) fun token =>
      d.behind token s) ?_ ?_
  · intro missed
    exact held_of_missed held missed
  · intro arrival rest unread _
    exact d.advance held unread

theorem meets_consuming (taken : Kind → Bool) {next : Token → Step n α}
    {otherwise : Step (n + 1) α} {after : α → ParseState → Prop}
    (found : ∀ token, Meets (d.behind token) (next token) after)
    (missing : Meets (d.held fun kind => kinds kind && !taken kind) otherwise after) :
    Meets (d.held kinds) (consuming taken next otherwise) after := by
  intro s bounded held
  apply consuming_cases bounded
  · intro missed
    exact missing s bounded (held_of_missed held missed)
  · intro arrival rest below unread _
    exact found arrival.token s.advance below (d.advance held unread)

end Discipline

end TinyPascal
