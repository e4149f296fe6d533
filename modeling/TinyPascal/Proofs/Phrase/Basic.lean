import TinyPascal.Proofs.Script
import TinyPascal.Proofs.Step

/-!
# Phrases, and the steps that read them

A phrase relates a script, the tokens left behind it and a value: the value can
be read by doing what the script lists, if that is what then remains. What
remains belongs to the phrase because the parser looks one token ahead.

A step realizes a phrase if it reads exactly that. It is sound: if no error shows
in the end, what was done is in the phrase. It is complete: whatever the phrase
offers is read.
-/

namespace TinyPascal

set_option autoImplicit false

abbrev Phrase (α : Type) := Script → List Token → α → Prop

namespace Phrase

variable {α β : Type}

/-- Whether the first of `tokens` is of a kind in `kinds`. -/
def faces (kinds : Kind → Bool) (tokens : List Token) : Bool :=
  tokens.head?.any fun token => kinds token.kind

@[simp]
theorem faces_nil (kinds : Kind → Bool) : faces kinds [] = false := rfl

@[simp]
theorem faces_cons (kinds : Kind → Bool) (token : Token) (tokens : List Token) :
    faces kinds (token :: tokens) = kinds token.kind := rfl

def silent (value : α) : Phrase α := fun script _ read => script = [] ∧ read = value

def seq (first : Phrase α) (second : α → Phrase β) : Phrase β := fun script rest value =>
  ∃ front back middle, script = front ++ back ∧ first front (back.tokens ++ rest) middle ∧
    second middle back rest value

def mapped (f : α → β) (phrase : Phrase α) : Phrase β := fun script rest value =>
  ∃ read, phrase script rest read ∧ value = f read

/-- A remark, and what stands behind it. -/
def noting (remark : Deed) (phrase : Phrase α) : Phrase α := fun script rest value =>
  ∃ back, script = remark :: back ∧ phrase back rest value

/-- A token of a kind in `kinds`, and what stands behind it. -/
def after (kinds : Kind → Bool) (behind : Token → Phrase α) : Phrase α := fun script rest value =>
  ∃ token back, script = .read token :: back ∧ kinds token.kind = true ∧
    behind token back rest value

/-- One phrase or another, told apart by the first token. -/
def fork (kinds : Kind → Bool) (yes no : Phrase α) : Phrase α := fun script rest value =>
  (faces kinds (script.tokens ++ rest) = true ∧ yes script rest value) ∨
    (faces kinds (script.tokens ++ rest) = false ∧ no script rest value)

theorem fork_same {kinds : Kind → Bool} {phrase : Phrase α} {script : Script}
    {rest : List Token} {value : α} (read : phrase script rest value) :
    fork kinds phrase phrase script rest value := by
  unfold fork
  cases faces kinds (script.tokens ++ rest)
  · exact .inr ⟨rfl, read⟩
  · exact .inl ⟨rfl, read⟩

def maybe (kinds : Kind → Bool) : Phrase (Option Token) := fun script rest value =>
  (script = [] ∧ faces kinds rest = false ∧ value = none) ∨
    ∃ token, script = [.read token] ∧ kinds token.kind = true ∧ value = some token

def one (kinds : Kind → Bool) : Phrase Token := fun script _ value =>
  script = [.read value] ∧ kinds value.kind = true

/-- A token of a kind in `kinds` and what stands behind it, or else something
that does not start so. -/
def choice (kinds : Kind → Bool) (behind : Token → Phrase α) (otherwise : Phrase α) : Phrase α :=
  fun script rest value =>
    after kinds behind script rest value ∨
    (faces kinds (script.tokens ++ rest) = false ∧ otherwise script rest value)

/-- The phrase of a rule, which is abandoned where there is nothing to read. -/
def kept (phrase : Phrase α) : Phrase (Option α) := fun script rest value =>
  ∃ read, value = some read ∧ phrase script rest read

/-- Items in a row, each introduced by a token of a kind in `kinds`. -/
inductive Series (kinds : Kind → Bool) (item : Token → Phrase α) : Phrase (List α)
  | stop {rest : List Token} (ended : faces kinds rest = false) : Series kinds item [] rest []
  | more {opening : Token} {front back : Script} {rest : List Token} {first : α}
      {others : List α} (opens : kinds opening.kind = true)
      (head : item opening front (back.tokens ++ rest) first)
      (tail : Series kinds item back rest others) :
      Series kinds item (.read opening :: (front ++ back)) rest (first :: others)

end Phrase

theorem ne_eof_of_kinds {kinds : Kind → Bool} {kind : Kind} (noEnd : kinds .eof = false)
    (faced : kinds kind = true) : kind ≠ .eof := by
  rintro rfl
  exact Bool.false_ne_true (noEnd.symm.trans faced)

namespace ParseState

theorem head_tokens (s : ParseState) : s.tokens.head? = some s.current := by
  unfold tokens current
  cases s.unread <;> rfl

theorem faces_tokens (s : ParseState) (kinds : Kind → Bool) :
    Phrase.faces kinds s.tokens = kinds s.current.kind := by
  rw [Phrase.faces, head_tokens]
  rfl

theorem unread_of_tokens {s : ParseState} {token : Token} {others : List Token}
    (ready : s.Ready) (tokens : s.tokens = token :: others) (real : token.kind ≠ .eof) :
    ∃ arrival rest, s.unread = arrival :: rest ∧ arrival.token = token := by
  unfold ParseState.tokens at tokens
  cases unread : s.unread with
  | nil =>
      rw [unread] at tokens
      simp only [List.map_nil, List.nil_append, List.cons.injEq] at tokens
      exact absurd (tokens.1 ▸ ready.ended) real
  | cons arrival rest =>
      rw [unread] at tokens
      simp only [List.map_cons, List.cons_append, List.cons.injEq] at tokens
      exact ⟨arrival, rest, rfl, tokens.1⟩

namespace Ready

theorem calm_eq {s : ParseState} (ready : s.Ready) : s.calm = s := by
  unfold ParseState.calm
  rw [← ready.calm]

theorem unread_of_faces {s : ParseState} {kinds : Kind → Bool} (ready : s.Ready)
    (noEnd : kinds .eof = false) (faced : kinds s.current.kind = true) :
    ∃ arrival rest, s.unread = arrival :: rest ∧ arrival.token = s.current := by
  have head := s.head_tokens
  cases tokens : s.tokens with
  | nil => rw [tokens] at head; cases head
  | cons token others =>
      rw [tokens] at head
      cases head
      exact unread_of_tokens ready tokens (ne_eof_of_kinds noEnd faced)

end Ready

end ParseState

/-- The step reads the phrase and nothing else. An error stays an error. -/
structure Step.Realizes {n : Nat} {α : Type} (step : Step n α) (phrase : Phrase α) : Prop where
  lasting : ∀ (s : ParseState) (bounded : s.unread.length < n), s.hadError = true →
    (step s bounded).state.hadError = true
  sound : ∀ (s : ParseState) (bounded : s.unread.length < n), s.Ready →
    (step s bounded).state.hadError = false →
    ∃ script, phrase script (step s bounded).state.tokens (step s bounded).value ∧
      s.Follows script (step s bounded).state
  complete : ∀ (s : ParseState) (bounded : s.unread.length < n) (script : Script)
    (rest : List Token) (value : α), s.Ready → s.tokens = script.tokens ++ rest →
    phrase script rest value →
    (step s bounded).value = value ∧ s.Follows script (step s bounded).state

namespace Step.Realizes

open Phrase

variable {n m : Nat} {α β : Type}

theorem congr {step : Step n α} {phrase other : Phrase α} (realizes : step.Realizes phrase)
    (same : ∀ script rest value, phrase script rest value ↔ other script rest value) :
    step.Realizes other where
  lasting := realizes.lasting
  sound := by
    intro s bounded ready clean
    obtain ⟨script, read, follows⟩ := realizes.sound s bounded ready clean
    exact ⟨script, (same _ _ _).mp read, follows⟩
  complete := by
    intro s bounded script rest value ready offered read
    exact realizes.complete s bounded script rest value ready offered ((same _ _ _).mpr read)

theorem pure (value : α) : (Pure.pure value : Step n α).Realizes (silent value) where
  lasting := by
    intro s bounded failed
    exact failed
  sound := by
    intro s bounded ready clean
    exact ⟨[], ⟨rfl, rfl⟩, .refl s⟩
  complete := by
    rintro s bounded script rest read ready offered ⟨rfl, rfl⟩
    exact ⟨rfl, .refl s⟩

theorem bind {step : Step n α} {next : α → Step n β} {first : Phrase α} {second : α → Phrase β}
    (head : step.Realizes first) (tail : ∀ value, (next value).Realizes (second value)) :
    (step >>= next).Realizes (seq first second) where
  lasting := by
    intro s bounded failed
    exact (tail _).lasting _ _ (head.lasting s bounded failed)
  sound := by
    intro s bounded ready clean
    have cleanHead : (step s bounded).state.hadError = false := by
      apply Bool.eq_false_iff.mpr
      intro failed
      exact Bool.false_ne_true (clean.symm.trans ((tail _).lasting _ _ failed))
    obtain ⟨front, readFront, followsFront⟩ := head.sound s bounded ready cleanHead
    obtain ⟨back, readBack, followsBack⟩ :=
      (tail (step s bounded).value).sound (step s bounded).state
        (Nat.lt_of_le_of_lt (step s bounded).noMore bounded) (followsFront.ready ready) clean
    rw [followsBack.tokens] at readFront
    exact ⟨front ++ back, ⟨front, back, _, rfl, readFront, readBack⟩,
      followsFront.trans followsBack⟩
  complete := by
    rintro s bounded script rest value ready offered ⟨front, back, middle, rfl, readFront, readBack⟩
    rw [Script.tokens_append, List.append_assoc] at offered
    obtain ⟨rfl, followsFront⟩ := head.complete s bounded front _ middle ready offered readFront
    obtain ⟨same, followsBack⟩ := (tail _).complete (step s bounded).state
      (Nat.lt_of_le_of_lt (step s bounded).noMore bounded) back rest value
      (followsFront.ready ready) (followsFront.tokens_eq offered) readBack
    exact ⟨same, followsFront.trans followsBack⟩

theorem map {step : Step n α} {phrase : Phrase α} (realizes : step.Realizes phrase) (f : α → β) :
    (step >>= fun value => Pure.pure (f value)).Realizes (mapped f phrase) := by
  apply (bind realizes fun value => pure (f value)).congr
  intro script rest value
  constructor
  · rintro ⟨front, back, read, rfl, offered, rfl, rfl⟩
    exact ⟨read, (List.append_nil front).symm ▸ offered, rfl⟩
  · rintro ⟨read, offered, rfl⟩
    exact ⟨script, [], read, (List.append_nil script).symm, offered, rfl, rfl⟩

theorem of_failing {step : Step n α}
    (fails : ∀ s bounded, (step s bounded).state.hadError = true) :
    step.Realizes fun _ _ _ => False where
  lasting := by
    intro s bounded _
    exact fails s bounded
  sound := by
    intro s bounded ready clean
    exact absurd (clean.symm.trans (fails s bounded)) Bool.false_ne_true
  complete := by
    intro s bounded script rest value ready offered impossible
    exact impossible.elim

theorem never {phrase : Phrase α} : (Step.never : Step 0 α).Realizes phrase where
  lasting := by
    intro s bounded
    exact absurd bounded (Nat.not_lt_zero _)
  sound := by
    intro s bounded
    exact absurd bounded (Nat.not_lt_zero _)
  complete := by
    intro s bounded
    exact absurd bounded (Nat.not_lt_zero _)

theorem within {step : Step n α} {phrase : Phrase α} (realizes : step.Realizes phrase)
    (fits : m ≤ n) : (step.within fits).Realizes phrase where
  lasting := by
    intro s bounded
    exact realizes.lasting s _
  sound := by
    intro s bounded
    exact realizes.sound s _
  complete := by
    intro s bounded
    exact realizes.complete s _

theorem ite (condition : Bool) {step other : Step n α} {phrase otherPhrase : Phrase α}
    (yes : step.Realizes phrase) (no : other.Realizes otherPhrase) :
    (if condition = true then step else other).Realizes
      (if condition = true then phrase else otherPhrase) := by
  cases condition
  · exact no
  · exact yes

end Step.Realizes

end TinyPascal
