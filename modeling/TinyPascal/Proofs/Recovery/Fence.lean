import TinyPascal.Proofs.Phrase.Mild

/-!
# Reading in front of a fence

A broken command ends at the next semicolon or `end`. In front of such a fence,
and with no `begin` on the way, every rule of expressions and commands does one of
two things: it reads on and stays in front of the fence, or it records one error
there and is abandoned.
-/

namespace TinyPascal

set_option autoImplicit false

/-- What may stand inside a command that holds no list of commands. -/
def Kind.isInner (kind : Kind) : Bool := !kind.endsCommand && kind ≠ .beginKw

theorem Kind.is_inner_iff (kind : Kind) :
    kind.isInner = true ↔ kind ≠ .semicolon ∧ kind ≠ .beginKw ∧ kind ≠ .endKw := by
  cases kind <;> decide

/-- Kinds that leave the fence alone. -/
def InnerKinds (kinds : Kind → Bool) : Prop := kinds .semicolon = false ∧ kinds .endKw = false

theorem InnerKinds.inside {kinds : Kind → Bool} {kind : Kind} (inner : InnerKinds kinds)
    (faced : kinds kind = true) : kind.endsCommand = false := by
  apply Bool.eq_false_iff.mpr
  intro ends
  cases kind with
  | semicolon => exact Bool.false_ne_true (inner.1.symm.trans faced)
  | endKw => exact Bool.false_ne_true (inner.2.symm.trans faced)
  | _ => cases ends

namespace ParseState

/-- What is left of a command, and then `fence`. -/
structure Fenced (fence : List Token) (s : ParseState) : Prop extends Ready s where
  closed : Phrase.faces Kind.endsCommand fence = true
  split : ∃ inner, s.tokens = inner ++ fence ∧ ∀ token ∈ inner, token.kind.isInner = true

namespace Fenced

variable {fence : List Token} {s : ParseState}

theorem current_cases (fenced : s.Fenced fence) :
    s.current.kind.endsCommand = true ∨ s.current.kind.isInner = true := by
  obtain ⟨inner, tokens, isInner⟩ := fenced.split
  have head := s.head_tokens
  rw [tokens] at head
  cases inner with
  | nil =>
      have closed := fenced.closed
      rw [Phrase.faces, ← List.nil_append fence, head] at closed
      exact .inl closed
  | cons first others =>
      have same : first = s.current := Option.some.inj head
      exact .inr (same ▸ isInner first List.mem_cons_self)

theorem not_begin (fenced : s.Fenced fence) : s.current.kind ≠ .beginKw := by
  intro begins
  rcases fenced.current_cases with ends | isInner
  · rw [begins] at ends
    cases ends
  · rw [begins] at isInner
    cases isInner

theorem unread_ne_nil (fenced : s.Fenced fence) : s.unread ≠ [] := by
  intro none
  obtain ⟨inner, tokens, -⟩ := fenced.split
  have closed := fenced.closed
  cases fence with
  | nil => cases closed
  | cons first others =>
      have member : first ∈ s.tokens := by
        rw [tokens]
        simp
      rw [ParseState.tokens, none, List.map_nil, List.nil_append, List.mem_singleton] at member
      rw [Phrase.faces_cons, member, fenced.ended] at closed
      cases closed

theorem advance {arrival : Arrival} {rest : List Arrival} (fenced : s.Fenced fence)
    (unread : s.unread = arrival :: rest) (inside : arrival.token.kind.endsCommand = false) :
    s.advance.Fenced fence := by
  have follows := follows_advance fenced.toOrderly unread
  refine ⟨follows.ready fenced.toReady, fenced.closed, ?_⟩
  obtain ⟨inner, tokens, isInner⟩ := fenced.split
  rw [follows.tokens] at tokens
  cases inner with
  | nil =>
      have closed := fenced.closed
      rw [← List.nil_append fence, ← tokens] at closed
      exact absurd (inside.symm.trans closed) Bool.false_ne_true
  | cons first others =>
      rw [List.cons_append] at tokens
      exact ⟨others, (List.cons.inj tokens).2, fun token member =>
        isInner token (List.mem_cons_of_mem _ member)⟩

theorem warn (fenced : s.Fenced fence) (token : Token) (problem : SyntacticProblem) :
    (s.warn token problem).Fenced fence :=
  ⟨(s.follows_warn token problem).ready fenced.toReady, fenced.closed, fenced.split⟩

end Fenced

/-- What may come of reading from `s` in front of `fence`. -/
inductive Proceeds {α : Type} (fence : List Token) (s : ParseState) : Option α → ParseState → Prop
  | onward {value : α} {script : Script} {after : ParseState} (follows : s.Follows script after)
      (mild : script.Mild) (fenced : after.Fenced fence) : Proceeds fence s (some value) after
  | broken {script : Script} {last : ParseState} {problem : SyntacticProblem}
      (follows : s.Follows script last) (mild : script.Mild) (fenced : last.Fenced fence) :
      Proceeds fence s none (last.refuse problem)

namespace Proceeds

variable {fence : List Token} {s t u : ParseState} {α β : Type}

theorem behind {script : Script} {value : Option α} (follows : s.Follows script t)
    (mild : script.Mild) (proceeds : Proceeds fence t value u) : Proceeds fence s value u := by
  cases proceeds with
  | onward further furtherMild fenced =>
      exact .onward (follows.trans further) (Script.mild_append.mpr ⟨mild, furtherMild⟩) fenced
  | broken further furtherMild fenced =>
      exact .broken (follows.trans further) (Script.mild_append.mpr ⟨mild, furtherMild⟩) fenced

theorem abandoned (proceeds : Proceeds fence s (none : Option α) t) :
    Proceeds fence s (none : Option β) t := by
  cases proceeds with
  | broken follows mild fenced => exact .broken follows mild fenced

end Proceeds

end ParseState

/-- A step that keeps in front of the fence. Where `read` gives nothing, it has been
broken off. -/
def Step.Passes (fence : List Token) {n : Nat} {α β : Type} (read : α → Option β)
    (step : Step n α) : Prop :=
  ∀ (s : ParseState) (bounded : s.unread.length < n), s.Fenced fence →
    s.Proceeds fence (read (step s bounded).value) (step s bounded).state

namespace Step

open ParseState

variable {fence : List Token} {n m : Nat} {α β γ δ : Type}

theorem passes_pure {read : α → Option β} {value : α} {result : β}
    (given : read value = some result) : Passes fence read (pure value : Step n α) := by
  intro s bounded fenced
  show s.Proceeds fence (read value) s
  rw [given]
  exact .onward (.refl s) Script.mild_nil fenced

theorem passes_bind {read : α → Option β} {read' : γ → Option δ} {step : Step n α}
    {next : α → Step n γ} (head : Passes fence read step)
    (tail : ∀ value result, read value = some result → Passes fence read' (next value))
    (stop : ∀ value, read value = none → ∃ result, next value = pure result ∧ read' result = none) :
    Passes fence read' (step >>= next) := by
  intro s bounded fenced
  have first := head s bounded fenced
  cases given : read (step s bounded).value with
  | none =>
      obtain ⟨result, same, none⟩ := stop _ given
      rw [given] at first
      show s.Proceeds fence (read' (next (step s bounded).value (step s bounded).state _).value)
        (next (step s bounded).value (step s bounded).state _).state
      rw [same]
      show s.Proceeds fence (read' result) (step s bounded).state
      rw [none]
      exact first.abandoned
  | some result =>
      rw [given] at first
      cases first with
      | onward follows mild further =>
          exact .behind follows mild (tail _ _ given _ _ further)

theorem passes_within {read : α → Option β} {step : Step n α} (fits : m ≤ n)
    (passes : Passes fence read step) : Passes fence read (step.within fits) := by
  intro s bounded fenced
  exact passes s _ fenced

theorem passes_consuming {read : α → Option β} {kinds : Kind → Bool} {behind : Token → Step n α}
    {otherwise : Step (n + 1) α} (inner : InnerKinds kinds)
    (found : ∀ token, Passes fence read (behind token)) (missing : Passes fence read otherwise) :
    Passes fence read (consuming kinds behind otherwise) := by
  intro s bounded fenced
  obtain ⟨arrival, rest, unread⟩ := List.exists_cons_of_ne_nil fenced.unread_ne_nil
  cases faced : kinds arrival.token.kind with
  | false =>
      rw [consuming_of_not_faces bounded (s.current_of_unread unread ▸ faced)]
      exact missing s bounded fenced
  | true =>
      obtain ⟨fits, value, state⟩ := consuming_of_faces behind otherwise bounded unread faced
      rw [value, state]
      exact .behind (follows_advance fenced.toOrderly unread) Script.mild_nil
        (found _ _ fits (fenced.advance unread (inner.inside faced)))

/-- In front of the fence there is no `begin`. -/
theorem passes_consuming_begin {read : α → Option β} {behind : Token → Step n α}
    {otherwise : Step (n + 1) α} (missing : Passes fence read otherwise) :
    Passes fence read (consuming (· = .beginKw) behind otherwise) := by
  intro s bounded fenced
  rw [consuming_of_not_faces bounded (decide_eq_false fenced.not_begin)]
  exact missing s bounded fenced

theorem passes_take {kinds : Kind → Bool}
    (inner : InnerKinds kinds) :
    Passes fence some (take kinds : Step n (Option Token)) := by
  intro s bounded fenced
  obtain ⟨arrival, rest, unread⟩ := List.exists_cons_of_ne_nil fenced.unread_ne_nil
  cases faced : kinds arrival.token.kind with
  | false =>
      obtain ⟨-, state⟩ := take_of_not_faces bounded (s.current_of_unread unread ▸ faced)
      rw [state]
      exact .onward (.refl s) Script.mild_nil fenced
  | true =>
      obtain ⟨-, state⟩ := take_of_faces bounded unread faced
      rw [state]
      exact .onward (follows_advance fenced.toOrderly unread) Script.mild_nil
        (fenced.advance unread (inner.inside faced))

theorem passes_sees (kinds : Kind → Bool) : Passes fence some (sees kinds : Step n Bool) := by
  intro s bounded fenced
  exact .onward (.refl s) Script.mild_nil fenced

theorem passes_warn (token : Token) (problem : SyntacticProblem) :
    Passes fence some (warn token problem : Step n Unit) := by
  intro s bounded fenced
  exact .onward (s.follows_warn token problem) (by simp [Script.mild_nil])
    (fenced.warn token problem)

def wholeRow (row : Row α) : Option (List α) := if row.complete then some row.items else none

end Step

end TinyPascal
