import TinyPascal.Proofs.Phrase.Steps

/-!
# What rules read

A rule realizes a phrase if, as a step, it reads the phrase and is never
abandoned over it.
-/

namespace TinyPascal

set_option autoImplicit false

def Phrase.nothing {α : Type} : Phrase α := fun _ _ _ => False

namespace Phrase

variable {α : Type}

theorem kept_choice {kinds : Kind → Bool} {found : Token → Phrase α} {missing : Phrase α}
    (script : Script) (rest : List Token) (value : Option α) :
    choice kinds (fun token => (found token).kept) missing.kept script rest value ↔
      (choice kinds found missing).kept script rest value := by
  constructor
  · rintro (⟨token, back, rfl, faced, read, rfl, offered⟩ | ⟨missed, read, rfl, offered⟩)
    · exact ⟨read, rfl, .inl ⟨token, back, rfl, faced, offered⟩⟩
    · exact ⟨read, rfl, .inr ⟨missed, offered⟩⟩
  · rintro ⟨read, rfl, ⟨token, back, rfl, faced, offered⟩ | ⟨missed, offered⟩⟩
    · exact .inl ⟨token, back, rfl, faced, read, rfl, offered⟩
    · exact .inr ⟨missed, read, rfl, offered⟩

theorem kept_fork {kinds : Kind → Bool} {yes no : Phrase α} (script : Script) (rest : List Token)
    (value : Option α) :
    fork kinds yes.kept no.kept script rest value ↔ (fork kinds yes no).kept script rest value := by
  constructor
  · rintro (⟨faced, read, rfl, offered⟩ | ⟨missed, read, rfl, offered⟩)
    · exact ⟨read, rfl, .inl ⟨faced, offered⟩⟩
    · exact ⟨read, rfl, .inr ⟨missed, offered⟩⟩
  · rintro ⟨read, rfl, ⟨faced, offered⟩ | ⟨missed, offered⟩⟩
    · exact .inl ⟨faced, read, rfl, offered⟩
    · exact .inr ⟨missed, read, rfl, offered⟩

end Phrase

def Rule.Realizes {n : Nat} {α : Type} (rule : Rule n α) (phrase : Phrase α) : Prop :=
  rule.run.Realizes phrase.kept

namespace Rule

open Phrase

variable {n m : Nat} {α β : Type}

namespace Realizes

theorem congr {rule : Rule n α} {phrase other : Phrase α} (realizes : Realizes rule phrase)
    (same : ∀ script rest value, phrase script rest value ↔ other script rest value) :
    Realizes rule other := by
  apply Step.Realizes.congr realizes
  intro script rest value
  exact exists_congr fun read => and_congr_right fun _ => same script rest read

theorem pure (value : α) : Realizes (Pure.pure value : Rule n α) (silent value) := by
  apply (Step.Realizes.pure (some value)).congr
  intro script rest read
  constructor
  · rintro ⟨rfl, rfl⟩
    exact ⟨value, rfl, rfl, rfl⟩
  · rintro ⟨_, rfl, rfl, rfl⟩
    exact ⟨rfl, rfl⟩

theorem bind {rule : Rule n α} {next : α → Rule n β} {first : Phrase α} {second : α → Phrase β}
    (head : Realizes rule first) (tail : ∀ value, Realizes (next value) (second value)) :
    Realizes (rule >>= next) (seq first second) := by
  have tails : ∀ value : Option α,
      (match value with
        | some value => (next value).run
        | none => Pure.pure none : Step n (Option β)).Realizes
        (match value with
          | some value => (second value).kept
          | none => silent none) := by
    intro value
    cases value with
    | none => exact .pure none
    | some value => exact tail value
  apply (Step.Realizes.bind head tails).congr
  intro script rest value
  constructor
  · rintro ⟨front, back, _, rfl, ⟨middle, rfl, readFront⟩, read, rfl, readBack⟩
    exact ⟨read, rfl, front, back, middle, rfl, readFront, readBack⟩
  · rintro ⟨read, rfl, front, back, middle, rfl, readFront, readBack⟩
    exact ⟨front, back, some middle, rfl, ⟨middle, rfl, readFront⟩, read, rfl, readBack⟩

theorem map {rule : Rule n α} {phrase : Phrase α} (realizes : Realizes rule phrase) (f : α → β) :
    Realizes (rule >>= fun value => Pure.pure (f value)) (mapped f phrase) := by
  apply (bind realizes fun value => pure (f value)).congr
  intro script rest value
  constructor
  · rintro ⟨front, back, read, rfl, offered, rfl, rfl⟩
    exact ⟨read, (List.append_nil front).symm ▸ offered, rfl⟩
  · rintro ⟨read, offered, rfl⟩
    exact ⟨script, [], read, (List.append_nil script).symm, offered, rfl, rfl⟩

theorem of_failing {rule : Rule n α}
    (fails : ∀ s bounded, (rule.run s bounded).state.hadError = true) :
    Realizes rule nothing := by
  apply (Step.Realizes.of_failing fails).congr
  intro script rest value
  constructor
  · exact False.elim
  · rintro ⟨_, _, impossible⟩
    exact impossible

theorem never {phrase : Phrase α} : Realizes (Rule.never : Rule 0 α) phrase :=
  Step.Realizes.never

theorem of_step {step : Step n α} {phrase : Phrase α} (realizes : step.Realizes phrase) :
    Realizes (ofStep step) phrase := by
  apply (Step.Realizes.map realizes some).congr
  intro script rest value
  exact exists_congr fun read => and_comm

end Realizes

/-- A rule whose failure is looked at. What happens then does not matter, since
an error has been recorded. -/
theorem run_bind_realizes {rule : Rule n α} {next : Option α → Step n β} {phrase : Phrase α}
    {tail : α → Phrase β} {missing : Phrase β} (realizes : Realizes rule phrase)
    (some : ∀ value, (next (some value)).Realizes (tail value))
    (none : (next none).Realizes missing) : (rule.run >>= next).Realizes (seq phrase tail) := by
  have tails : ∀ value : Option α, (next value).Realizes
      (match value with
        | .some value => tail value
        | .none => missing) := by
    intro value
    cases value with
    | none => exact none
    | some value => exact some value
  apply (Step.Realizes.bind realizes tails).congr
  intro script rest value
  constructor
  · rintro ⟨front, back, _, rfl, ⟨read, rfl, head⟩, tail⟩
    exact ⟨front, back, read, rfl, head, tail⟩
  · rintro ⟨front, back, read, rfl, head, tail⟩
    exact ⟨front, back, .some read, rfl, ⟨read, rfl, head⟩, tail⟩

theorem take_bind_realizes {kinds : Kind → Bool} {next : Option Token → Rule n α}
    {found : Token → Phrase α} {missing : Phrase α} (noEnd : kinds .eof = false)
    (some : ∀ token, Realizes (next (some token)) (found token))
    (none : Realizes (next none) missing) :
    Realizes (ofStep (Step.take kinds) >>= next) (choice kinds found missing) := by
  have step : (Step.take kinds >>= fun token => (next token).run).Realizes
      (choice kinds (fun token => (found token).kept) missing.kept) :=
    Step.take_bind_realizes noEnd some none
  exact step.congr kept_choice

theorem sees_bind_realizes {kinds : Kind → Bool} {next : Bool → Rule n α} {yes no : Phrase α}
    (seen : Realizes (next true) yes) (unseen : Realizes (next false) no) :
    Realizes (ofStep (Step.sees kinds) >>= next) (fork kinds yes no) := by
  have step : (Step.sees kinds >>= fun faced => (next faced).run).Realizes
      (fork kinds yes.kept no.kept) :=
    Step.sees_bind_realizes seen unseen
  exact step.congr kept_fork

theorem warn_bind_realizes {token : Token} {problem : SyntacticProblem} {next : Unit → Rule n α}
    {phrase : Phrase α} (realizes : Realizes (next ()) phrase) :
    Realizes (ofStep (Step.warn token problem) >>= next)
      (noting (Script.warning token problem) phrase) := by
  have step : (Step.warn token problem >>= fun _ => (next ()).run).Realizes
      (noting (Script.warning token problem) phrase.kept) :=
    Step.warn_bind_realizes realizes
  apply step.congr
  intro script rest value
  constructor
  · rintro ⟨back, rfl, read, rfl, offered⟩
    exact ⟨read, rfl, back, rfl, offered⟩
  · rintro ⟨read, rfl, back, rfl, offered⟩
    exact ⟨back, rfl, read, rfl, offered⟩

theorem refuse_realizes (problem : SyntacticProblem) :
    Realizes (refuse problem : Rule n α) nothing :=
  .of_failing fun _ _ => rfl

theorem refuse_quoting_realizes (problem : String → SyntacticProblem) :
    Realizes (refuseQuoting problem : Rule n α) nothing :=
  .of_failing fun _ _ => rfl

theorem expect_any_realizes {kinds : Kind → Bool} {otherwise : Rule n Token}
    (noEnd : kinds .eof = false) (fails : Realizes otherwise nothing) :
    Realizes (expectAny kinds otherwise) (one kinds) := by
  apply (take_bind_realizes noEnd (fun token => .pure token) fails).congr
  intro script rest value
  constructor
  · rintro (⟨token, back, rfl, faced, rfl, rfl⟩ | ⟨_, impossible⟩)
    · exact ⟨rfl, faced⟩
    · exact impossible.elim
  · rintro ⟨rfl, faced⟩
    exact .inl ⟨value, [], rfl, faced, rfl, rfl⟩

theorem expect_realizes {kind : Kind} (problem : SyntacticProblem) (real : kind ≠ .eof) :
    Realizes (expect kind problem : Rule n Token) (one (· = kind)) :=
  expect_any_realizes (decide_eq_false real.symm) (refuse_realizes problem)

theorem expect_bind_realizes {kind : Kind} {problem : SyntacticProblem} {next : Token → Rule n α}
    {tail : Token → Phrase α} (real : kind ≠ .eof)
    (realizes : ∀ token, Realizes (next token) (tail token)) :
    Realizes (expect kind problem >>= next) (after (· = kind) tail) := by
  apply (Realizes.bind (expect_realizes problem real) realizes).congr
  intro script rest value
  constructor
  · rintro ⟨_, back, token, rfl, ⟨rfl, faced⟩, read⟩
    exact ⟨token, back, rfl, faced, read⟩
  · rintro ⟨token, back, rfl, faced, read⟩
    exact ⟨[_], back, token, rfl, ⟨rfl, faced⟩, read⟩

theorem expect_run_bind_realizes {kind : Kind} {problem : SyntacticProblem}
    {next : Option Token → Step n α} {tail : Token → Phrase α} {missing : Phrase α}
    (real : kind ≠ .eof) (some : ∀ token, (next (some token)).Realizes (tail token))
    (none : (next none).Realizes missing) :
    ((expect kind problem).run >>= next).Realizes (after (· = kind) tail) := by
  apply (run_bind_realizes (expect_realizes problem real) some none).congr
  intro script rest value
  constructor
  · rintro ⟨_, back, token, rfl, ⟨rfl, faced⟩, read⟩
    exact ⟨token, back, rfl, faced, read⟩
  · rintro ⟨token, back, rfl, faced, read⟩
    exact ⟨[_], back, token, rfl, ⟨rfl, faced⟩, read⟩

theorem consuming_realizes {kinds : Kind → Bool} {behind : Token → Rule n α}
    {otherwise : Rule (n + 1) α} {tail : Token → Phrase α} {other : Phrase α}
    (noEnd : kinds .eof = false) (behindRealizes : ∀ token, Realizes (behind token) (tail token))
    (otherRealizes : Realizes otherwise other) :
    Realizes (consuming kinds behind otherwise) (choice kinds tail other) := by
  exact (Step.consuming_realizes noEnd behindRealizes otherRealizes).congr kept_choice

theorem row_realizes {kinds : Kind → Bool} {item : Token → Rule n α} {phrase : Token → Phrase α}
    (noEnd : kinds .eof = false) (realizes : ∀ opening, Realizes (item opening) (phrase opening)) :
    Realizes (row kinds item) (Series kinds phrase) := by
  have outcome : ∀ read : Row α,
      (if read.complete = true then Pure.pure read.items else failure : Rule n (List α)).run.Realizes
        (silent (if read.complete = true then some read.items else none)) := by
    intro read
    cases read.complete
    · exact .pure none
    · exact .pure (some read.items)
  -- An abandoned row is no error of its own, so the two outcomes are told apart
  -- as steps and not as rules.
  have whole : ∀ read : Option (Row α),
      (match read with
        | some read => (if read.complete = true then Pure.pure read.items else failure :
            Rule n (List α)).run
        | none => Pure.pure none : Step n (Option (List α))).Realizes
        (silent (read.bind fun read => if read.complete = true then some read.items else none)) := by
    intro read
    cases read with
    | none => exact .pure none
    | some read => exact outcome read
  have series := Step.row_realizes noEnd realizes n (Nat.le_succ n)
  apply (Step.Realizes.bind (Realizes.of_step series) whole).congr
  intro script rest value
  constructor
  · rintro ⟨front, back, _, rfl, ⟨read, rfl, complete, offered⟩, rfl, rfl⟩
    rw [List.append_nil]
    exact ⟨read.items, by simp [complete], offered⟩
  · rintro ⟨items, rfl, offered⟩
    exact ⟨script, [], some ⟨items, true⟩, (List.append_nil script).symm,
      ⟨_, rfl, rfl, offered⟩, rfl, rfl⟩

end Rule

end TinyPascal
