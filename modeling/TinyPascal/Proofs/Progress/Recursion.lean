import TinyPascal.Proofs.Parallel.Whole

/-!
# Recursion behind a consumed token

The bound under which a rule is read is no part of its meaning: under any bound that
allows the rule at all it comes to the same outcome. The rules that lead back into
themselves, for factors, commands and procedures, do so only behind a consumed token,
so what they come to depends only on readings with fewer tokens ahead.
-/

namespace TinyPascal

set_option autoImplicit false

/-- The body of a recursion that leads back into itself only behind a consumed token:
what it comes to in `s` is decided by what the inner readings come to where fewer tokens
are unread than in `s`. -/
def Step.Guarded {α : Type} (body : (n : Nat) → Step n α → Step (n + 1) α) : Prop :=
  ∀ (n : Nat) (inner other : Step n α) (s : ParseState) (bounded : s.unread.length < n + 1),
    (∀ (t : ParseState) (below : t.unread.length < n), t.unread.length < s.unread.length →
      inner t below = other t below) →
    body n inner s bounded = body n other s bounded

namespace Step

variable {α : Type}

/-- A body that treats alike readings alike under any two bounds is guarded: its bound
can be lowered to what is unread, and below that the inner readings agree. -/
theorem guarded_of_alike {body : (n : Nat) → Step n α → Step (n + 1) α}
    (uniform : ∀ {n n' : Nat} {inner : Step n α} {inner' : Step n' α},
      Alike Eq id inner inner' → Alike Eq id (body n inner) (body n' inner')) : Guarded body := by
  intro n inner other s bounded agree
  have fits : s.unread.length ≤ n := Nat.le_of_lt_succ bounded
  have lowered : ∀ step : Step n α, body n step s bounded =
      body _ (step.within fits) s (Nat.lt_succ_self _) := by
    intro step
    have alike : Alike Eq id step (step.within fits) := by
      intro s t bounded bounded' states
      cases states
      exact ⟨rfl, rfl⟩
    exact eq_of_alike (uniform alike) s _ _
  have same : inner.within fits = other.within fits := by
    funext t below
    exact agree t _ below
  rw [lowered inner, lowered other, same]

theorem guarded_factor : Guarded fun _ inner => (Rule.factorOf (OptionT.mk inner)).run := by
  apply guarded_of_alike
  intro n n' inner inner' alike
  have bodies := @Rule.alike_factor_of .whole Eq n n' Parallel.equal (OptionT.mk inner)
    (OptionT.mk inner')
  rw [Expr.seen_whole_eq, Rule.Alike, Rule.Alike, Option.map_id] at bodies
  exact bodies alike

theorem guarded_command : Guarded fun n inner =>
    (Rule.commandOf (Rule.expression n) (OptionT.mk inner)).run := by
  apply guarded_of_alike
  intro n n' inner inner' alike
  have bodies := @Rule.alike_command_of .whole Eq n n' Parallel.equal _ _ (OptionT.mk inner)
    (OptionT.mk inner') (Rule.alike_expression Parallel.equal n n')
  rw [Command.seen_whole_eq, Rule.Alike, Rule.Alike, Option.map_id] at bodies
  exact bodies alike

theorem guarded_procedures : Guarded fun _ => procedureRow := by
  apply guarded_of_alike
  intro n n' inner inner' alike
  have bodies := @alike_procedure_row .whole Eq n n' Parallel.equal inner inner'
  rw [Program.seen_whole_eq, List.map_id_fun] at bodies
  exact bodies alike

theorem program_unbounded (n n' : Nat) (s : ParseState) (bounded : s.unread.length < n)
    (bounded' : s.unread.length < n') :
    (program n : Step n Program) s bounded = (program n' : Step n' Program) s bounded' := by
  have alike := alike_program Parallel.equal n n'
  rw [Program.seen_whole_eq] at alike
  exact eq_of_alike alike s bounded bounded'

end Step

end TinyPascal
