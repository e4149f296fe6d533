import TinyPascal.Proofs.Recovery.Boundary
import TinyPascal.Proofs.Recovery.Isolation

/-!
# Reading given tokens

A step may consume tokens that are not what it asks for, recover, and go on. What it then
reports and gives is stated here by the tokens it consumes, so that steps that read a part as
it should be and steps that read a broken part are put together in the same way.
-/

namespace TinyPascal

set_option autoImplicit false

namespace Step

open Phrase ParseState

variable {n m : Nat} {α β : Type}

/-- Wherever `text` stands in front of `rest`, the step consumes `text` and nothing else, and is
not in panic behind it. `outcome` is said of the errors it reports and the value it gives. -/
def Reads (step : Step n α) (text rest : List Token) (outcome : Diagnostics → α → Prop) : Prop :=
  ∀ (s : ParseState) (bounded : s.unread.length < n), s.Ready → s.tokens = text ++ rest →
    ∃ script : Script, script.tokens = text ∧ s.Follows script (step s bounded).state ∧
      outcome script.errors (step s bounded).value

/-- No error is reported, and `value` is given. -/
def just (value : α) : Diagnostics → α → Prop := fun errors read => errors = [] ∧ read = value

variable {text rest : List Token} {outcome : Diagnostics → α → Prop}

theorem Reads.weaken {step : Step n α} {other : Diagnostics → α → Prop}
    (reads : step.Reads text rest outcome)
    (implies : ∀ errors value, outcome errors value → other errors value) :
    step.Reads text rest other := by
  intro s bounded ready tokens
  rcases reads s bounded ready tokens with ⟨script, same, follows, said⟩
  exact ⟨script, same, follows, implies _ _ said⟩

theorem Reads.bind {step : Step n α} {next : α → Step n β} {front back : List Token}
    {second : Diagnostics → β → Prop} (head : step.Reads front (back ++ rest) outcome)
    (tail : ∀ errors value, outcome errors value →
      (next value).Reads back rest fun more result => second (errors ++ more) result) :
    (step >>= next).Reads (front ++ back) rest second := by
  intro s bounded ready tokens
  rw [List.append_assoc] at tokens
  rcases head s bounded ready tokens with ⟨first, rfl, follows, said⟩
  rcases tail _ _ said _ (Nat.lt_of_le_of_lt (step s bounded).noMore bounded) (follows.ready ready)
    (follows.tokens_eq tokens) with ⟨further, rfl, follows', said'⟩
  refine ⟨first ++ further, Script.tokens_append _ _, follows.trans follows', ?_⟩
  rw [Script.errors_append]
  exact said'

theorem Reads.map {step : Step n α} {second : Diagnostics → β → Prop} (f : α → β)
    (reads : step.Reads text rest outcome)
    (implies : ∀ errors value, outcome errors value → second errors (f value)) :
    (step >>= fun value => pure (f value)).Reads text rest second := by
  intro s bounded ready tokens
  rcases reads s bounded ready tokens with ⟨script, same, follows, said⟩
  exact ⟨script, same, follows, implies _ _ said⟩

theorem Reads.within {step : Step n α} (fits : m ≤ n) (reads : step.Reads text rest outcome) :
    (step.within fits).Reads text rest outcome := by
  intro s bounded
  exact reads s _

theorem Realizes.reads {step : Step n α} {phrase target : Phrase α} {script : Script}
    {other : List Token} {value : α} (realizes : step.Realizes target) (mild : target.Mild)
    (moves : Moves phrase target n) (read : phrase script rest value) (more : other ≠ [])
    (same : SameHead rest other) : step.Reads script.tokens other (just value) := by
  intro s bounded ready tokens
  have short : script.tokens.length < n := by
    have lengths := congrArg List.length tokens
    have positive := List.length_pos_iff.mpr more
    simp only [ParseState.tokens, List.length_append, List.length_map, List.length_cons,
      List.length_nil] at lengths
    omega
  have moved := moves script rest other value read short same
  rcases realizes.complete s bounded script other value ready tokens moved with ⟨given, follows⟩
  exact ⟨script, rfl, follows, (mild script other value moved).errors, given⟩

theorem reads_consuming {kinds : Kind → Bool} {behind : Token → Step n α}
    {otherwise : Step (n + 1) α} {opening : Token} (noEnd : kinds .eof = false)
    (opens : kinds opening.kind = true) (reads : (behind opening).Reads text rest outcome) :
    (consuming kinds behind otherwise).Reads (opening :: text) rest outcome := by
  intro s bounded ready tokens
  rcases unread_of_tokens ready tokens (ne_eof_of_kinds noEnd opens) with
    ⟨arrival, others, unread, rfl⟩
  have follows := follows_advance ready.toOrderly unread
  rcases consuming_of_faces behind otherwise bounded unread opens with ⟨below, value, state⟩
  rcases reads _ below (follows.ready ready) (follows.tokens_eq tokens) with
    ⟨script, rfl, follows', said⟩
  rw [value, state]
  exact ⟨_, Script.tokens_append _ _, follows.trans follows', said⟩

theorem reads_row_more {kinds : Kind → Bool} {item : Token → Rule n α} {opening : Token}
    {front back : List Token} {second : Diagnostics → Row α → Prop} (noEnd : kinds .eof = false)
    (opens : kinds opening.kind = true)
    (head : (item opening).run.Reads front (back ++ rest) fun errors value =>
      ∃ read, value = some read ∧ outcome errors read)
    (tail : ∀ m fits, (row kinds item m fits).Reads back rest second) (m : Nat) (fits : m ≤ n + 1) :
    (row kinds item m fits).Reads (opening :: (front ++ back)) rest fun errors value =>
      ∃ early late read others, errors = early ++ late ∧ outcome early read ∧ second late others ∧
        value = { others with items := read :: others.items } := by
  cases m with
  | zero =>
      intro s bounded
      exact absurd bounded (Nat.not_lt_zero _)
  | succ m =>
      unfold row
      apply reads_consuming noEnd opens
      apply (head.within (Nat.le_of_succ_le_succ fits)).bind
      rintro early _ ⟨read, rfl, said⟩
      apply (tail m _).map
      intro late others said'
      exact ⟨early, late, read, others, rfl, said, said', rfl⟩

variable {stops : Kind → Bool} {boundary inner garbage : List Token}

theorem recover_of_refuse {s : ParseState} (inside : s.Inside stops boundary)
    (tokens : s.tokens = inner ++ boundary) (problem : SyntacticProblem)
    (bounded : (s.refuse problem).unread.length < n) :
    ∃ script : Script, script.tokens = inner ∧ script.errors.length = 1 ∧
      s.Follows script (recover stops (s.refuse problem) bounded).state := by
  rcases inside.split with ⟨others, left, free⟩
  rw [tokens] at left
  rw [← List.append_cancel_right left] at free
  have heard := follows_refuse inside.calm inside.unread_ne_nil problem
  have skipped := follows_skip_to (heard.orderly inside.toOrderly) inside.closed tokens free
  refine ⟨_, ?_, ?_, heard.trans skipped⟩
  · rw [Script.tokens_append, Script.tokens_map_read]
    rfl
  · rw [Script.errors_append, Script.errors_map_read]
    rfl

/-- A phrase in place of which something else may stand, up to the boundary. If it is read, then
`whole` says that nothing is left in front of the boundary. -/
theorem Tries.reads_recover {step : Step n α} {phrase : Phrase α} {stopped : α → Prop}
    (tries : Tries stops boundary step phrase stopped) (noEnd : stops .eof = false)
    (closed : faces stops boundary = true) (free : ∀ token ∈ garbage, stops token.kind = false)
    (whole : ∀ script left value, garbage = script.tokens ++ left →
      phrase script (left ++ boundary) value → left = []) :
    (do
      let value ← step
      recover stops
      return value : Step n α).Reads garbage boundary fun errors value =>
        (errors = [] ∧ ∃ script, script.tokens = garbage ∧ phrase script boundary value) ∨
          (errors.length = 1 ∧ stopped value) := by
  intro s bounded ready tokens
  have inside : s.Inside stops boundary := ⟨ready, noEnd, closed, garbage, tokens, free⟩
  have tried := tries s bounded inside
  have below := Nat.lt_of_le_of_lt (step s bounded).noMore bounded
  change ∃ script : Script, script.tokens = garbage ∧
    s.Follows script (recover stops (step s bounded).state below).state ∧
      ((script.errors = [] ∧ ∃ read : Script, read.tokens = garbage ∧
        phrase read boundary (step s bounded).value) ∨
        (script.errors.length = 1 ∧ stopped (step s bounded).value))
  generalize (step s bounded).value = value, (step s bounded).state = t at tried below ⊢
  cases tried with
  | @read script _ follows mild after said =>
      rcases after.split with ⟨left, remaining, -⟩
      rw [remaining] at said
      have same : garbage = script.tokens ++ left := by
        rw [follows.tokens, remaining, ← List.append_assoc] at tokens
        exact (List.append_cancel_right tokens).symm
      have nothing := whole script left value same said
      rw [nothing, List.append_nil] at same
      rw [nothing] at said
      rw [recover_state stops below after.calm]
      exact ⟨script, same.symm, follows, .inl ⟨mild.errors, script, same.symm, said⟩⟩
  | @broken script last problem follows mild stopping ended =>
      rcases stopping.split with ⟨left, remaining, -⟩
      rcases recover_of_refuse stopping remaining problem below with ⟨skipped, same, one, follows'⟩
      refine ⟨script ++ skipped, ?_, follows.trans follows', .inr ⟨?_, ended⟩⟩
      · rw [follows.tokens, remaining, ← List.append_assoc] at tokens
        rw [Script.tokens_append, same]
        exact List.append_cancel_right tokens
      · rw [Script.errors_append, mild.errors, List.nil_append, one]

end Step

namespace Parse

open Phrase ParseState

/-- A program that was read without error is read as it was wherever the same words stand, if
nothing but what is behind its point has changed. -/
theorem program_of_clean {source : String} (clean : (ofText source).hadError = false) :
    ∃ n script others, WholeProgram unbroken n script (others ++ [.endOfFile .start])
        (ofText source).program ∧ (Scan.ofText source).words = script.tokens ++ others := by
  rcases sound_of_text clean with ⟨n, script, others, read, words, -, -⟩
  exact ⟨_, script, others, program_before_anything read (Nat.lt_succ_self _) _, words⟩

theorem length_of_split {words before behind : List Token} {token : Token} {place : Nat}
    (split : words = before ++ token :: behind)
    (only : ∀ i : Fin words.length, words[i].kind = token.kind → i.val = place) :
    before.length = place := by
  have short : before.length < words.length := by
    rw [split, List.length_append]
    exact Nat.lt_add_of_pos_right (Nat.succ_pos _)
  apply only ⟨before.length, short⟩
  simp [split]

theorem of_reads {source : String} {text others : List Token}
    {outcome : Diagnostics → Program → Prop}
    (reads : ∀ n, (Step.program n : Step n Program).Reads text (others ++ [.endOfFile .start])
      outcome)
    (words : (Scan.ofText source).words.map Token.bare = (text ++ others).map Token.bare) :
    ∃ errors value, outcome errors value ∧ (ofText source).program.bare = value.bare ∧
      (ofText source).syntaxErrors.length = errors.length := by
  have same := Stream.same_words_of_tokens words
  have lexical := Stream.lexical_of_tokens (text ++ others) (Stream.ofText source).truncated
  have offered := Stream.tokens_of_tokens (text ++ others) (Stream.ofText source).truncated
  rw [← tokens_start, List.append_assoc] at offered
  rcases reads _ _ (Nat.lt_succ_self _) (ready_start lexical) offered with
    ⟨script, -, follows, said⟩
  have performs := performs_of_follows lexical follows
  rcases alike_of_same_words same lexical (Stream.lexical_of_text source) with ⟨programs, -, remarks⟩
  rw [performs.remarks] at remarks
  refine ⟨script.errors, _, said, programs.symm, ?_⟩
  rw [syntax_errors_eq]
  exact (length_errors_of_gists remarks).symm

end Parse

end TinyPascal
