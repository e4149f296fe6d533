import TinyPascal.Proofs.Recovery.Broken

/-!
# Declarations in front of a boundary

A broken header or list of variables reaches up to a token that opens the next part of the
program. No rule of declarations takes such a token. So in front of it every one of them
either reads a phrase and stays in front of it, or records one error there and is given up,
and recovery leads to the boundary.
-/

namespace TinyPascal

set_option autoImplicit false

namespace ParseState

/-- Tokens of no kind in `stops`, and then `boundary`, which starts with one of such a kind. -/
structure Inside (stops : Kind → Bool) (boundary : List Token) (s : ParseState) : Prop
    extends Ready s where
  noEnd : stops .eof = false
  closed : Phrase.faces stops boundary = true
  split : ∃ inner, s.tokens = inner ++ boundary ∧ ∀ token ∈ inner, stops token.kind = false

namespace Inside

variable {stops : Kind → Bool} {boundary : List Token} {s : ParseState}

theorem unread_ne_nil (inside : s.Inside stops boundary) : s.unread ≠ [] := by
  intro none
  rcases inside.split with ⟨inner, tokens, _⟩
  have closed := inside.closed
  cases boundary with
  | nil => cases closed
  | cons first others =>
      have member : first ∈ s.tokens := by
        rw [tokens]
        exact List.mem_append_right inner List.mem_cons_self
      rw [ParseState.tokens, none, List.map_nil, List.nil_append, List.mem_singleton] at member
      rw [Phrase.faces_cons, member, inside.ended, inside.noEnd] at closed
      cases closed

theorem advance {arrival : Arrival} {rest : List Arrival} (inside : s.Inside stops boundary)
    (unread : s.unread = arrival :: rest) (goes : stops arrival.token.kind = false) :
    s.advance.Inside stops boundary := by
  have follows := follows_advance inside.toOrderly unread
  refine ⟨follows.ready inside.toReady, inside.noEnd, inside.closed, ?_⟩
  rcases inside.split with ⟨inner, tokens, free⟩
  rw [follows.tokens] at tokens
  cases inner with
  | nil =>
      have closed := inside.closed
      rw [← List.nil_append boundary, ← tokens] at closed
      exact absurd (goes.symm.trans closed) Bool.false_ne_true
  | cons first others =>
      rw [List.cons_append] at tokens
      exact ⟨others, (List.cons.inj tokens).2, fun token member =>
        free token (List.mem_cons_of_mem _ member)⟩

theorem warn (inside : s.Inside stops boundary) (token : Token) (problem : SyntacticProblem) :
    (s.warn token problem).Inside stops boundary :=
  ⟨(s.follows_warn token problem).ready inside.toReady, inside.noEnd, inside.closed, inside.split⟩

end Inside

/-- What comes of reading a phrase from `s` in front of a boundary. If it is given up, an error
has been recorded in the last state, and the value is one that `stopped` is said of. -/
inductive Tried {α : Type} (stops : Kind → Bool) (boundary : List Token) (phrase : Phrase α)
    (stopped : α → Prop) (s : ParseState) (value : α) : ParseState → Prop
  | read {script : Script} {after : ParseState} (follows : s.Follows script after)
      (mild : script.Mild) (inside : after.Inside stops boundary)
      (said : phrase script after.tokens value) : Tried stops boundary phrase stopped s value after
  | broken {script : Script} {last : ParseState} {problem : SyntacticProblem}
      (follows : s.Follows script last) (mild : script.Mild) (inside : last.Inside stops boundary)
      (stop : stopped value) :
      Tried stops boundary phrase stopped s value (last.refuse problem)

end ParseState

/-- In front of a boundary the step reads the phrase or is given up. -/
def Step.Tries {n : Nat} {α : Type} (stops : Kind → Bool) (boundary : List Token)
    (step : Step n α) (phrase : Phrase α) (stopped : α → Prop) : Prop :=
  ∀ (s : ParseState) (bounded : s.unread.length < n), s.Inside stops boundary →
    s.Tried stops boundary phrase stopped (step s bounded).value (step s bounded).state

/-- A rule that is given up gives nothing. -/
def Rule.Tries {n : Nat} {α : Type} (stops : Kind → Bool) (boundary : List Token)
    (rule : Rule n α) (phrase : Phrase α) : Prop :=
  Step.Tries stops boundary rule.run phrase.kept (· = none)

/-- Kinds that leave the boundary alone. -/
def Apart (stops kinds : Kind → Bool) : Prop := ∀ kind, kinds kind = true → stops kind = false

namespace ParseState.Tried

variable {α β : Type} {stops : Kind → Bool} {boundary : List Token} {phrase : Phrase α}
  {stopped : α → Prop} {s t u : ParseState} {value : α}

theorem behind {other : Phrase β} {stopped' : β → Prop} {result : β} {front : Script}
    (follows : s.Follows front t) (mild : front.Mild)
    (tried : t.Tried stops boundary other stopped' result u)
    (implies : ∀ back, other back u.tokens result → t.tokens = back.tokens ++ u.tokens →
      phrase (front ++ back) u.tokens value)
    (stop : stopped' result → stopped value) :
    s.Tried stops boundary phrase stopped value u := by
  cases tried with
  | read further furtherMild inside said =>
      exact .read (follows.trans further) (Script.mild_append.mpr ⟨mild, furtherMild⟩) inside
        (implies _ said further.tokens)
  | broken further furtherMild inside ended =>
      exact .broken (follows.trans further) (Script.mild_append.mpr ⟨mild, furtherMild⟩) inside
        (stop ended)

theorem weaken {other : Phrase β} {stopped' : β → Prop} {result : β}
    (tried : s.Tried stops boundary phrase stopped value t)
    (implies : ∀ script rest, phrase script rest value → other script rest result)
    (stop : stopped value → stopped' result) :
    s.Tried stops boundary other stopped' result t := by
  cases tried with
  | read follows mild inside said => exact .read follows mild inside (implies _ _ said)
  | broken follows mild inside ended => exact .broken follows mild inside (stop ended)

end ParseState.Tried

namespace Step

open Phrase ParseState

variable {stops : Kind → Bool} {boundary : List Token} {n m : Nat} {α β : Type}

def neverStopped : α → Prop := fun _ => False

def anyhow : α → Prop := fun _ => True

theorem tries_pure (value : α) {stopped : α → Prop} :
    Tries stops boundary (pure value : Step n α) (silent value) stopped := by
  intro s bounded inside
  exact .read (.refl s) Script.mild_nil inside ⟨rfl, rfl⟩

theorem tries_bind {step : Step n α} {next : α → Step n β} {first : Phrase α}
    {second : α → Phrase β} {stopped : α → Prop} {stopped' : β → Prop}
    (head : Tries stops boundary step first stopped)
    (tail : ∀ value, Tries stops boundary (next value) (second value) stopped')
    (stop : ∀ value, stopped value → ∀ (s : ParseState) (bounded : s.unread.length < n),
      s.panicking = true → stopped' (next value s bounded).value ∧
        (next value s bounded).state = s) :
    Tries stops boundary (step >>= next) (seq first second) stopped' := by
  intro s bounded inside
  apply bind_cases step bounded
  intro value t below rfl rfl
  have tried := head s bounded inside
  generalize (step s bounded).value = value, (step s bounded).state = t at tried below ⊢
  cases tried with
  | read follows mild further said =>
      apply ParseState.Tried.behind follows mild (tail value t below further) _ id
      intro back read tokens
      rw [tokens] at said
      exact ⟨_, back, value, rfl, said, read⟩
  | @broken _ last problem follows mild further ended =>
      rcases stop value ended _ below rfl with ⟨ended', same⟩
      rw [same]
      exact .broken follows mild further ended'

theorem tries_map {step : Step n α} {phrase : Phrase α} {stopped : α → Prop}
    (tries : Tries stops boundary step phrase stopped) (f : α → β) :
    Tries stops boundary (step >>= fun value => pure (f value)) (mapped f phrase) anyhow := by
  intro s bounded inside
  apply (tries s bounded inside).weaken _ fun _ => trivial
  intro script rest read
  exact ⟨_, read, rfl⟩

theorem tries_never {phrase : Phrase α} {stopped : α → Prop} :
    Tries stops boundary (never : Step 0 α) phrase stopped := by
  intro s bounded
  exact absurd bounded (Nat.not_lt_zero _)

theorem tries_within {step : Step n α} {phrase : Phrase α} {stopped : α → Prop} (fits : m ≤ n)
    (tries : Tries stops boundary step phrase stopped) :
    Tries stops boundary (step.within fits) phrase stopped := by
  intro s bounded inside
  exact tries s _ inside

theorem Tries.weaken {step : Step n α} {phrase other : Phrase α} {stopped stopped' : α → Prop}
    (tries : Tries stops boundary step phrase stopped)
    (implies : ∀ script rest value, phrase script rest value → other script rest value)
    (stop : ∀ value, stopped value → stopped' value) :
    Tries stops boundary step other stopped' := by
  intro s bounded inside
  exact (tries s bounded inside).weaken (fun script rest => implies script rest _) (stop _)

theorem tries_take {kinds : Kind → Bool} (apart : Apart stops kinds) :
    Tries stops boundary (take kinds : Step n (Option Token)) (maybe kinds) neverStopped := by
  intro s bounded inside
  apply take_cases kinds bounded
  · intro missed
    have absent := missed.resolve_left inside.unread_ne_nil
    exact .read (.refl s) Script.mild_nil inside
      (.inl ⟨rfl, (s.faces_tokens kinds).trans absent, rfl⟩)
  · intro arrival rest unread faced
    exact .read (follows_advance inside.toOrderly unread)
      (Script.mild_read.mpr Script.mild_nil)
      (inside.advance unread (apart _ faced)) (.inr ⟨arrival.token, rfl, faced, rfl⟩)

theorem tries_either {next : Option α → Step n β} {found : α → Phrase β} {missing : Phrase β}
    {stopped : β → Prop}
    (none : Tries stops boundary (next none) missing stopped)
    (some : ∀ value, Tries stops boundary (next (some value)) (found value) stopped) :
    ∀ value, Tries stops boundary (next value) (value.elim missing found) stopped := by
  intro value
  cases value with
  | none => exact none
  | some value => exact some value

theorem tries_take_bind {kinds : Kind → Bool} {next : Option Token → Step n α}
    {found : Token → Phrase α} {missing : Phrase α} {stopped : α → Prop} (apart : Apart stops kinds)
    (some : ∀ token, Tries stops boundary (next (some token)) (found token) stopped)
    (none : Tries stops boundary (next none) missing stopped) :
    Tries stops boundary (take kinds >>= next) (choice kinds found missing) stopped := by
  have tries := tries_bind (tries_take apart) (tries_either none some)
    fun _ impossible => impossible.elim
  apply tries.weaken _ fun _ ended => ended
  rintro script rest value ⟨_, back, _, rfl, ⟨rfl, missed, rfl⟩ | ⟨token, rfl, faced, rfl⟩, read⟩
  · exact .inr ⟨missed, read⟩
  · exact .inl ⟨token, back, rfl, faced, read⟩

theorem tries_sees_bind {kinds : Kind → Bool} {next : Bool → Step n α} {yes no : Phrase α}
    {stopped : α → Prop} (seen : Tries stops boundary (next true) yes stopped)
    (unseen : Tries stops boundary (next false) no stopped) :
    Tries stops boundary (sees kinds >>= next) (fork kinds yes no) stopped := by
  intro s bounded inside
  apply bind_cases (sees kinds) bounded
  intro faced t below same rfl
  have here : kinds s.current.kind = faced := same
  cases faced with
  | true =>
      apply ParseState.Tried.behind (.refl s) Script.mild_nil (seen s bounded inside) _ id
      intro back read tokens
      refine .inl ⟨?_, read⟩
      rw [List.nil_append, ← tokens, s.faces_tokens kinds, here]
  | false =>
      apply ParseState.Tried.behind (.refl s) Script.mild_nil (unseen s bounded inside) _ id
      intro back read tokens
      refine .inr ⟨?_, read⟩
      rw [List.nil_append, ← tokens, s.faces_tokens kinds, here]

theorem tries_warn_bind {token : Token} {problem : SyntacticProblem} {next : Unit → Step n α}
    {phrase : Phrase α} {stopped : α → Prop}
    (tries : Tries stops boundary (next ()) phrase stopped) :
    Tries stops boundary (warn token problem >>= next)
      (noting (Script.warning token problem) phrase) stopped := by
  intro s bounded inside
  apply bind_cases (warn token problem) bounded
  intro value t below rfl rfl
  apply ParseState.Tried.behind (s.follows_warn token problem) (Script.mild_warning.mpr Script.mild_nil)
    (tries _ below (inside.warn token problem)) _ id
  intro back read _
  exact ⟨back, rfl, read⟩

theorem tries_consuming {kinds : Kind → Bool} {behind : Token → Step n α}
    {otherwise : Step (n + 1) α} {tail : Token → Phrase α} {other : Phrase α} {stopped : α → Prop}
    (apart : Apart stops kinds)
    (found : ∀ token, Tries stops boundary (behind token) (tail token) stopped)
    (missing : Tries stops boundary otherwise other stopped) :
    Tries stops boundary (consuming kinds behind otherwise) (choice kinds tail other) stopped := by
  intro s bounded inside
  apply consuming_cases bounded
  · intro missed
    have absent := missed.resolve_left inside.unread_ne_nil
    apply ParseState.Tried.behind (.refl s) Script.mild_nil (missing s bounded inside) _ id
    intro back read tokens
    refine .inr ⟨?_, read⟩
    rw [List.nil_append, ← tokens, s.faces_tokens kinds, absent]
  · intro arrival rest below unread faced
    apply ParseState.Tried.behind (follows_advance inside.toOrderly unread)
      (Script.mild_read.mpr Script.mild_nil)
      (found arrival.token _ below (inside.advance unread (apart _ faced))) _ id
    intro back read _
    exact .inl ⟨arrival.token, back, rfl, faced, read⟩

def fullRow (kinds : Kind → Bool) (phrase : Token → Phrase α) : Phrase (Row α) :=
  fun script rest row => row.complete = true ∧ Series kinds phrase script rest row.items

/-- Items in a row are read up to one that is given up. -/
theorem tries_row {kinds : Kind → Bool} {item : Token → Rule n α} {phrase : Token → Phrase α}
    (apart : Apart stops kinds)
    (each : ∀ opening, Rule.Tries stops boundary (item opening) (phrase opening)) :
    ∀ (m : Nat) (fits : m ≤ n + 1), Tries stops boundary (row kinds item m fits)
      (fullRow kinds phrase) fun row => row.complete = false := by
  intro m
  induction m with
  | zero =>
      intro fits
      exact tries_never
  | succ m induction =>
      intro fits
      have rest : ∀ first : α, Tries stops boundary (do
          let others ← row kinds item m (Nat.le_succ_of_le (Nat.le_of_succ_le_succ fits))
          return { others with items := first :: others.items })
          (seq (fullRow kinds phrase) fun others =>
            silent { others with items := first :: others.items })
          fun row => row.complete = false := by
        intro first
        apply tries_bind (induction _) fun others => tries_pure _
        intro others incomplete s bounded _
        exact ⟨incomplete, rfl⟩
      unfold row
      refine Tries.weaken (tries_consuming apart (fun opening =>
        tries_bind (tries_within (Nat.le_of_succ_le_succ fits) (each opening))
          (tries_either (tries_pure _) rest) ?_) (tries_pure _)) ?_ fun _ ended => ended
      · rintro _ rfl s bounded _
        exact ⟨rfl, rfl⟩
      rintro script tokens value (⟨opening, _, rfl, opens, front, back, _, rfl, ⟨first, rfl, head⟩,
        last, _, others, rfl, ⟨complete, series⟩, rfl, rfl⟩ | ⟨ended, rfl, rfl⟩)
      · rw [List.append_nil] at head ⊢
        exact ⟨complete, .more opens head series⟩
      · exact ⟨rfl, .stop ended⟩

end Step

namespace Rule

open Phrase ParseState

variable {stops : Kind → Bool} {boundary : List Token} {n : Nat} {α β : Type}

theorem Tries.weaken {rule : Rule n α} {phrase other : Phrase α}
    (tries : Tries stops boundary rule phrase)
    (implies : ∀ script rest value, phrase script rest value → other script rest value) :
    Tries stops boundary rule other := by
  apply Step.Tries.weaken tries _ fun _ ended => ended
  rintro script rest _ ⟨value, rfl, read⟩
  exact ⟨value, rfl, implies script rest value read⟩

theorem tries_pure (value : α) : Tries stops boundary (pure value : Rule n α) (silent value) := by
  apply Step.Tries.weaken (Step.tries_pure (some value)) _ fun _ ended => ended
  rintro script rest _ ⟨rfl, rfl⟩
  exact ⟨value, rfl, rfl, rfl⟩

theorem tries_bind {rule : Rule n α} {next : α → Rule n β} {first : Phrase α}
    {second : α → Phrase β} (head : Tries stops boundary rule first)
    (tail : ∀ value, Tries stops boundary (next value) (second value)) :
    Tries stops boundary (rule >>= next) (seq first second) := by
  have rest : ∀ value : Option α, Step.Tries stops boundary
      (match value with
        | some value => (next value).run
        | none => pure none : Step n (Option β))
      (value.elim (silent none) fun value => (second value).kept) (· = none) :=
    Step.tries_either (Step.tries_pure none) tail
  have whole := Step.tries_bind head rest (by
    rintro _ rfl s bounded _
    exact ⟨rfl, rfl⟩)
  apply Step.Tries.weaken whole _ fun _ ended => ended
  rintro script rest value ⟨front, back, _, rfl, ⟨middle, rfl, readFront⟩, read, rfl, readBack⟩
  exact ⟨read, rfl, front, back, middle, rfl, readFront, readBack⟩

theorem tries_of_step {step : Step n α} {phrase : Phrase α}
    (tries : Step.Tries stops boundary step phrase Step.neverStopped) :
    Tries stops boundary (ofStep step) phrase := by
  have whole : Step.Tries stops boundary (ofStep step).run _ (· = none) :=
    Step.tries_bind tries (fun value => Step.tries_pure (some value))
      fun _ impossible => impossible.elim
  apply Step.Tries.weaken whole _ fun _ ended => ended
  rintro script rest _ ⟨front, _, value, rfl, read, rfl, rfl⟩
  refine ⟨value, rfl, ?_⟩
  rw [List.append_nil]
  exact read

theorem tries_refuse (problem : SyntacticProblem) (phrase : Phrase α) :
    Tries stops boundary (refuse problem : Rule n α) phrase := by
  intro s bounded inside
  exact .broken (.refl s) Script.mild_nil inside rfl

theorem tries_refuse_quoting (problem : String → SyntacticProblem) (phrase : Phrase α) :
    Tries stops boundary (refuseQuoting problem : Rule n α) phrase := by
  intro s bounded inside
  exact .broken (.refl s) Script.mild_nil inside rfl

theorem tries_expect_any {kinds : Kind → Bool} {otherwise : Rule n Token} (apart : Apart stops kinds)
    (fails : Tries stops boundary otherwise nothing) :
    Tries stops boundary (expectAny kinds otherwise) (one kinds) := by
  have whole : Tries stops boundary (expectAny kinds otherwise)
      (seq (maybe kinds) fun token => token.elim nothing silent) := by
    apply tries_bind (tries_of_step (Step.tries_take apart))
    intro token
    cases token with
    | none => exact fails
    | some token => exact tries_pure token
  apply whole.weaken
  rintro script rest value ⟨_, _, _, rfl, ⟨rfl, _, rfl⟩ | ⟨token, rfl, faced, rfl⟩, read⟩
  · exact read.elim
  · rcases read with ⟨rfl, rfl⟩
    exact ⟨rfl, faced⟩

theorem tries_expect {kind : Kind} (problem : SyntacticProblem) (apart : stops kind = false) :
    Tries stops boundary (expect kind problem : Rule n Token) (one (· = kind)) := by
  apply tries_expect_any _ (tries_refuse problem _)
  intro other same
  rw [of_decide_eq_true same]
  exact apart

theorem tries_row {kinds : Kind → Bool} {item : Token → Rule n α} {phrase : Token → Phrase α}
    (apart : Apart stops kinds)
    (each : ∀ opening, Tries stops boundary (item opening) (phrase opening)) :
    Tries stops boundary (row kinds item) (Series kinds phrase) := by
  have tails : ∀ read : Row α, Step.Tries stops boundary
      (if read.complete = true then pure read.items else failure : Rule n (List α)).run
      (if read.complete = true then silent (some read.items) else silent none) (· = none) := by
    intro read
    split
    · exact Step.tries_pure _
    · exact Step.tries_pure _
  have whole : Step.Tries stops boundary (row kinds item).run _ (· = none) :=
    Step.tries_bind (Step.tries_row apart each n (Nat.le_succ n)) tails (by
      intro read incomplete s bounded _
      rw [incomplete]
      exact ⟨rfl, rfl⟩)
  apply Step.Tries.weaken whole _ fun _ ended => ended
  rintro script rest value ⟨front, back, read, rfl, ⟨complete, series⟩, ended⟩
  rw [if_pos complete] at ended
  rcases ended with ⟨rfl, rfl⟩
  rw [List.append_nil]
  exact ⟨read.items, rfl, series⟩

end Rule

end TinyPascal
