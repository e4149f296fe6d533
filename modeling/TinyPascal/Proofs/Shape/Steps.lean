import TinyPascal.Proofs.Phrase.Basic

/-!
# What a step makes of the words before it

A step reads some of the words that are still to come and leaves the rest. Its contract says what
the value has to do with the words it has read, and with the rest. A rule promises nothing about
words it has read when it is abandoned; whoever goes on behind it has lost them.
-/

namespace TinyPascal

set_option autoImplicit false

open Phrase (faces)

/-- The words still to come. -/
def ParseState.words (s : ParseState) : List Token := s.unread.map Arrival.token

namespace ParseState

variable {s : ParseState} {kinds : Kind → Bool} {arrival : Arrival} {rest : List Arrival}

theorem words_of_unread (unread : s.unread = arrival :: rest) :
    s.words = arrival.token :: s.advance.words := by
  rw [words, words, unread_advance, unread]
  rfl

theorem faces_words_of_missed (missed : s.unread = [] ∨ kinds s.current.kind = false) :
    faces kinds s.words = false := by
  unfold words faces
  cases unread : s.unread with
  | nil => rfl
  | cons arrival rest =>
      have passed := missed.resolve_left (by simp [unread])
      rw [s.current_of_unread unread] at passed
      simpa using passed

theorem words_skip_to (s : ParseState) (stops : Kind → Bool) :
    ∃ read, s.words = read ++ (s.skipTo stops).words := by
  generalize size : s.unread.length = count
  induction count generalizing s with
  | zero =>
      rw [skip_to_of_stop (.inl (List.length_eq_zero_iff.mp size))]
      exact ⟨[], rfl⟩
  | succ count induction =>
      rcases List.exists_cons_of_length_eq_add_one size with ⟨arrival, rest, unread⟩
      cases stop : stops s.current.kind with
      | true =>
          rw [skip_to_of_stop (.inr stop)]
          exact ⟨[], rfl⟩
      | false =>
          have shorter : s.advance.unread.length = count := by
            rw [unread_advance, List.length_tail, size]
            rfl
          rcases induction s.advance shorter with ⟨read, split⟩
          rw [skip_to_of_go (unread ▸ List.cons_ne_nil arrival rest) stop, words_of_unread unread,
            split]
          exact ⟨arrival.token :: read, rfl⟩

end ParseState

/-- With `words` to come, the step reads some of them. `target` holds of what it reads, of the
rest and of the value. -/
def Step.Makes {n : Nat} {α : Type} (words : List Token) (step : Step n α)
    (target : List Token → List Token → α → Prop) : Prop :=
  ∀ (s : ParseState) (bounded : s.unread.length < n), s.words = words →
    ∃ read, words = read ++ (step s bounded).state.words ∧
      target read (step s bounded).state.words (step s bounded).value

/-- Unless the rule is abandoned, `target` holds of what it reads, of the rest and of the
value. -/
def Rule.Makes {n : Nat} {α : Type} (words : List Token) (rule : Rule n α)
    (target : List Token → List Token → α → Prop) : Prop :=
  Step.Makes words rule.run fun read rest value => ∀ made, value = some made → target read rest made

namespace Step

variable {n m : Nat} {α β : Type} {words : List Token}
  {target goal : List Token → List Token → α → Prop}

theorem makes_pure {value : α} (done : target [] words value) :
    Makes words (pure value : Step n α) target := by
  intro s bounded start
  rw [← start] at done
  exact ⟨[], start.symm, done⟩

theorem makes_bind {step : Step n β} {next : β → Step n α}
    {middle : List Token → List Token → β → Prop} (first : Makes words step middle)
    (second : ∀ read rest value, words = read ++ rest → middle read rest value →
      Makes rest (next value) fun more => target (read ++ more)) :
    Makes words (step >>= next) target := by
  intro s bounded start
  rcases first s bounded start with ⟨read, split, reached⟩
  rcases second _ _ _ split reached _ _ rfl with ⟨more, further, done⟩
  exact ⟨read ++ more, by rw [split, further, List.append_assoc]; rfl, done⟩

theorem Makes.imp {step : Step n α} (makes : Makes words step target)
    (implies : ∀ read rest value, target read rest value → goal read rest value) :
    Makes words step goal := by
  intro s bounded start
  rcases makes s bounded start with ⟨read, split, reached⟩
  exact ⟨read, split, implies _ _ _ reached⟩

theorem makes_map {step : Step n β} {middle : List Token → List Token → β → Prop} {f : β → α}
    (first : Makes words step middle)
    (implies : ∀ read rest value, middle read rest value → target read rest (f value)) :
    Makes words (step >>= fun value => pure (f value)) target := by
  intro s bounded start
  rcases first s bounded start with ⟨read, split, reached⟩
  exact ⟨read, split, implies _ _ _ reached⟩

theorem makes_never : Makes words (never : Step 0 α) target := by
  intro s bounded
  exact absurd bounded (Nat.not_lt_zero _)

theorem makes_within {step : Step n α} (fits : m ≤ n) (makes : Makes words step target) :
    Makes words (step.within fits) target := by
  intro s bounded start
  exact makes s _ start

/-- The step reads nothing. -/
def Still (step : Step n α) : Prop :=
  ∀ (s : ParseState) (bounded : s.unread.length < n), (step s bounded).state.words = s.words

theorem still_current : Still (current : Step n Token) := fun _ _ => rfl

theorem still_sees (kinds : Kind → Bool) : Still (sees kinds : Step n Bool) := fun _ _ => rfl

theorem still_panicking : Still (panicking : Step n Bool) := fun _ _ => rfl

theorem still_calm : Still (calm : Step n Unit) := fun _ _ => rfl

theorem still_warn (token : Token) (problem : SyntacticProblem) :
    Still (warn token problem : Step n Unit) := fun _ _ => rfl

theorem still_refuse (problem : SyntacticProblem) : Still (refuse problem : Step n Unit) :=
  fun _ _ => rfl

theorem makes_still_bind {step : Step n β} {next : β → Step n α} (still : Still step)
    (second : ∀ value, Makes words (next value) target) : Makes words (step >>= next) target := by
  intro s bounded start
  have unmoved := still s bounded
  exact second _ _ _ (unmoved.trans start)

/-- Words may be read without being made into anything. -/
theorem makes_recover (stops : Kind → Bool) :
    Makes words (recover stops : Step n Unit) fun _ _ _ => True := by
  intro s bounded start
  rw [← start]
  unfold recover
  split
  · rcases s.calm.words_skip_to stops with ⟨read, split⟩
    exact ⟨read, split, trivial⟩
  · exact ⟨[], rfl, trivial⟩

theorem makes_take (kinds : Kind → Bool) :
    Makes words (take kinds : Step n (Option Token)) fun read rest found =>
      match found with
      | some token => read = [token] ∧ kinds token.kind = true
      | none => read = [] ∧ faces kinds rest = false := by
  intro s bounded start
  rw [← start]
  refine take_cases kinds bounded (motive := fun found t => ∃ read, s.words = read ++ t.words ∧
    match found with
    | some token => read = [token] ∧ kinds token.kind = true
    | none => read = [] ∧ faces kinds t.words = false) ?_ ?_
  · intro missed
    exact ⟨[], rfl, rfl, ParseState.faces_words_of_missed missed⟩
  · intro arrival rest unread faced
    exact ⟨[arrival.token], ParseState.words_of_unread unread, rfl, faced⟩

theorem makes_take_bind (kinds : Kind → Bool) {next : Option Token → Step n α}
    (found : ∀ token rest, words = token :: rest → kinds token.kind = true →
      Makes rest (next (some token)) fun more => target (token :: more))
    (missing : faces kinds words = false → Makes words (next none) target) :
    Makes words (take kinds >>= next) target := by
  apply makes_bind (makes_take kinds)
  intro read rest token split reached
  cases token with
  | none =>
      rcases reached with ⟨rfl, passed⟩
      rw [List.nil_append] at split
      subst split
      exact missing passed
  | some token =>
      rcases reached with ⟨rfl, faced⟩
      exact found token rest split faced

theorem makes_consuming (kinds : Kind → Bool) {behind : Token → Step n α}
    {otherwise : Step (n + 1) α}
    (found : ∀ token rest, words = token :: rest → kinds token.kind = true →
      Makes rest (behind token) fun more => target (token :: more))
    (missing : Makes words otherwise target) :
    Makes words (consuming kinds behind otherwise) target := by
  intro s bounded start
  refine consuming_cases bounded (motive := fun value t =>
    ∃ read, words = read ++ t.words ∧ target read t.words value) ?_ ?_
  · intro _
    exact missing s bounded start
  · intro arrival rest below unread faced
    have split := start.symm.trans (ParseState.words_of_unread unread)
    rcases found _ _ split faced s.advance below rfl with ⟨read, further, done⟩
    exact ⟨arrival.token :: read, split.trans (congrArg _ further), done⟩

/-- A row is made of what its items are made of. `tokens` are those an item keeps, the one that
opens it included. -/
theorem makes_row {opens : Kind → Bool} {item : Token → Rule n α} {shape : α → Prop}
    {tokens : α → List Token}
    (each : ∀ opening words, opens opening.kind = true → Rule.Makes words (item opening)
      fun read _ made => shape made ∧ (tokens made).Sublist (opening :: read))
    (m : Nat) (fits : m ≤ n + 1) (words : List Token) :
    Makes words (row opens item m fits) fun read _ row =>
      (∀ made ∈ row.items, shape made) ∧ (row.items.flatMap tokens).Sublist read := by
  induction m generalizing words with
  | zero => exact makes_never
  | succ m induction =>
      rw [row]
      apply makes_consuming
      · intro opening rest _ opened
        apply makes_bind (makes_within _ (each opening rest opened))
        intro read rest made _ reached
        cases made with
        | none => exact makes_pure ⟨List.forall_mem_nil _, List.nil_sublist _⟩
        | some first =>
            rcases reached first rfl with ⟨shaped, kept⟩
            apply makes_map (induction _ rest)
            intro more _ others further
            apply And.intro (List.forall_mem_cons.mpr ⟨shaped, further.1⟩)
            rw [List.flatMap_cons]
            exact kept.append further.2
      · exact makes_pure ⟨List.forall_mem_nil _, List.nil_sublist _⟩

theorem makes_separated {opens : Kind → Bool} {item : Token → Rule n α} {shape : α → Prop}
    {tokens : α → List Token}
    (each : ∀ opening words, Rule.Makes words (item opening) fun read _ made =>
      shape made ∧ (tokens made).Sublist read)
    (m : Nat) (fits : m ≤ n + 1) (words : List Token) :
    Makes words (row opens item m fits) fun read _ row =>
      (∀ made ∈ row.items, shape made) ∧ (row.items.flatMap tokens).Sublist read := by
  apply makes_row
  intro opening words _
  apply Makes.imp (each opening words)
  intro read _ value reached made same
  exact ⟨(reached made same).1, (reached made same).2.cons opening⟩

end Step

namespace Rule

open Step

variable {n : Nat} {α β : Type} {words : List Token}
  {target goal : List Token → List Token → α → Prop}

theorem makes_pure {value : α} (done : target [] words value) :
    Makes words (pure value : Rule n α) target := by
  apply Step.makes_pure
  intro made same
  rwa [← Option.some.inj same]

theorem makes_bind {rule : Rule n β} {next : β → Rule n α}
    {middle : List Token → List Token → β → Prop} (first : Makes words rule middle)
    (second : ∀ read rest value, words = read ++ rest → middle read rest value →
      Makes rest (next value) fun more => target (read ++ more)) :
    Makes words (rule >>= next) target := by
  unfold Makes
  rw [OptionT.run_bind]
  apply Step.makes_bind first
  intro read rest value split reached
  cases value with
  | none =>
      apply Step.makes_pure
      intro made same
      cases same
  | some value => exact second read rest value split (reached value rfl)

theorem Makes.imp {rule : Rule n α} (makes : Makes words rule target)
    (implies : ∀ read rest value, target read rest value → goal read rest value) :
    Makes words rule goal := by
  apply Step.Makes.imp makes
  intro read rest value reached made same
  exact implies read rest made (reached made same)

theorem makes_map {rule : Rule n β} {middle : List Token → List Token → β → Prop} {f : β → α}
    (first : Makes words rule middle)
    (implies : ∀ read rest value, middle read rest value → target read rest (f value)) :
    Makes words (rule >>= fun value => pure (f value)) target := by
  apply makes_bind first
  intro read rest value _ reached
  apply makes_pure
  rw [List.append_nil]
  exact implies read rest value reached

theorem makes_of_step {step : Step n α} (makes : Step.Makes words step target) :
    Makes words (ofStep step) target := by
  intro s bounded start
  rcases makes s bounded start with ⟨read, split, reached⟩
  apply Exists.intro read
  apply And.intro split
  intro made same
  rwa [← Option.some.inj same]

theorem makes_still_bind {step : Step n β} {next : β → Rule n α} (still : Still step)
    (second : ∀ value, Makes words (next value) target) :
    Makes words (ofStep step >>= next) target := by
  have steps : Step.Makes words (step >>= fun value => (next value).run) fun read rest value =>
      ∀ made, value = some made → target read rest made := Step.makes_still_bind still second
  exact steps

theorem makes_never : Makes words (never : Rule 0 α) target := Step.makes_never

theorem makes_failure : Makes words (failure : Rule n α) target := by
  apply Step.makes_pure
  intro made same
  cases same

theorem makes_refuse (problem : SyntacticProblem) :
    Makes words (refuse problem : Rule n α) target :=
  makes_still_bind (still_refuse problem) fun _ => makes_failure

theorem makes_refuse_quoting (problem : String → SyntacticProblem) :
    Makes words (refuseQuoting problem : Rule n α) target :=
  makes_still_bind still_current fun _ => makes_refuse _

theorem makes_take_bind (kinds : Kind → Bool) {next : Option Token → Rule n α}
    (found : ∀ token rest, words = token :: rest → kinds token.kind = true →
      Makes rest (next (some token)) fun more => target (token :: more))
    (missing : faces kinds words = false → Makes words (next none) target) :
    Makes words (ofStep (Step.take kinds) >>= next) target := by
  have steps : Step.Makes words (Step.take kinds >>= fun token => (next token).run)
      fun read rest value => ∀ made, value = some made → target read rest made :=
    Step.makes_take_bind kinds found missing
  exact steps

theorem makes_expect_any (kinds : Kind → Bool) {otherwise : Rule n Token}
    (none : ∀ target, Makes words otherwise target) :
    Makes words (expectAny kinds otherwise) fun read _ token =>
      read = [token] ∧ kinds token.kind = true := by
  apply makes_take_bind
  · intro token rest _ faced
    exact makes_pure ⟨rfl, faced⟩
  · intro _
    exact none _

theorem makes_expect_any_bind {kinds : Kind → Bool} {otherwise : Rule n Token}
    {next : Token → Rule n α}
    (none : ∀ target, Makes words otherwise target)
    (found : ∀ token rest, kinds token.kind = true →
      Makes rest (next token) fun more => target (token :: more)) :
    Makes words (expectAny kinds otherwise >>= next) target := by
  apply makes_bind (makes_expect_any kinds none)
  intro read rest token _ reached
  rcases reached with ⟨rfl, faced⟩
  exact found token rest faced

theorem makes_expect (kind : Kind) (problem : SyntacticProblem) :
    Makes words (expect kind problem : Rule n Token) fun read _ token =>
      read = [token] ∧ token.kind = kind := by
  apply (makes_expect_any (· = kind) fun _ => makes_refuse problem).imp
  intro read rest token reached
  exact ⟨reached.1, of_decide_eq_true reached.2⟩

theorem makes_expect_bind {kind : Kind} {problem : SyntacticProblem} {next : Token → Rule n α}
    (found : ∀ token rest, token.kind = kind →
      Makes rest (next token) fun more => target (token :: more)) :
    Makes words (expect kind problem >>= next) target := by
  apply makes_expect_any_bind fun _ => makes_refuse problem
  intro token rest faced
  exact found token rest (of_decide_eq_true faced)

theorem makes_consuming (kinds : Kind → Bool) {behind : Token → Rule n α}
    {otherwise : Rule (n + 1) α}
    (found : ∀ token rest, words = token :: rest → kinds token.kind = true →
      Makes rest (behind token) fun more => target (token :: more))
    (missing : Makes words otherwise target) :
    Makes words (consuming kinds behind otherwise) target :=
  Step.makes_consuming kinds found missing

theorem makes_row {opens : Kind → Bool} {item : Token → Rule n α} {shape : α → Prop}
    {tokens : α → List Token}
    (each : ∀ opening words, opens opening.kind = true → Makes words (item opening)
      fun read _ made => shape made ∧ (tokens made).Sublist (opening :: read)) :
    Makes words (row opens item) fun read _ items =>
      (∀ made ∈ items, shape made) ∧ (items.flatMap tokens).Sublist read := by
  apply makes_bind (makes_of_step (Step.makes_row each n (Nat.le_succ n) words))
  intro read rest row _ reached
  split
  · apply makes_pure
    rwa [List.append_nil]
  · exact makes_failure

theorem makes_separated {opens : Kind → Bool} {item : Token → Rule n α} {shape : α → Prop}
    {tokens : α → List Token}
    (each : ∀ opening words, Makes words (item opening) fun read _ made =>
      shape made ∧ (tokens made).Sublist read) :
    Makes words (row opens item) fun read _ items =>
      (∀ made ∈ items, shape made) ∧ (items.flatMap tokens).Sublist read := by
  apply makes_row
  intro opening words _
  apply (each opening words).imp
  intro read _ made reached
  exact ⟨reached.1, reached.2.cons opening⟩

end Rule

end TinyPascal
