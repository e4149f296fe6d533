import TinyPascal.Proofs.Parallel.Layout
import TinyPascal.Proofs.Phrase.Command
import TinyPascal.Proofs.Recovery.FencedRules

/-!
# A broken command is passed over

A list of commands that meets a broken one consumes it up to the fence and reports
one error. What it does there depends on the tokens alone, neither on what was read
before nor on how deep the list is nested.
-/

namespace TinyPascal

set_option autoImplicit false

namespace Script

def errors (script : Script) : Diagnostics := script.remarks.errors

theorem Mild.errors {script : Script} (mild : script.Mild) : script.errors = [] := by
  apply List.filter_eq_nil_iff.mpr
  intro remark member
  simp [Diagnostic.isError, mild remark member]

theorem errors_append (first second : Script) :
    errors (first ++ second) = errors first ++ errors second := by
  rw [errors, remarks_append]
  exact List.filter_append _ _

end Script

namespace ParseState

/-- A refusal that is heard, once the panic is over. -/
theorem follows_refuse {s : ParseState} (calm : s.panicking = false) (more : s.unread ≠ [])
    (problem : SyntacticProblem) :
    s.Follows [.say (.about .error s.current (.syntactic problem))] (s.refuse problem).calm := by
  have heard : s.unread.isEmpty = false := by simpa using more
  constructor
  all_goals simp [ParseState.tokens, ParseState.consumed, ParseState.remarks,
    ParseState.diagnostics, refuse, ParseState.calm, calm, heard, pulls, faulty,
    ParseEvent.consumed?, ParseEvent.remark?, ParseEvent.diagnostic?, Diagnostic.about,
    Diagnostic.phase, Problem.phase, Diagnostic.isError]

theorem follows_skip_to {s : ParseState} {stops : Kind → Bool} {boundary inner : List Token}
    (orderly : s.Orderly) (closed : Phrase.faces stops boundary = true)
    (tokens : s.tokens = inner ++ boundary) (free : ∀ token ∈ inner, stops token.kind = false) :
    s.Follows (inner.map .read) (s.skipTo stops) := by
  induction inner generalizing s with
  | nil =>
      have stop : stops s.current.kind = true := by
        rw [← s.faces_tokens stops, tokens]
        exact closed
      rw [skip_to_of_stop (.inr stop)]
      exact .refl s
  | cons first others induction =>
      cases unread : s.unread with
      | nil =>
          -- The end of the text is not both `first` and what stands behind it.
          rw [ParseState.tokens, unread, List.map_nil, List.nil_append, List.cons_append] at tokens
          have none := (List.append_eq_nil_iff.mp (List.cons.inj tokens).2.symm).2
          rw [none] at closed
          cases closed
      | cons arrival rest =>
          have follows := follows_advance orderly unread
          rw [follows.tokens] at tokens
          rcases List.cons.inj tokens with ⟨same, behind⟩
          have goes : stops s.current.kind = false := by
            rw [s.current_of_unread unread, same]
            exact free first List.mem_cons_self
          rw [skip_to_of_go (by rw [unread]; exact List.cons_ne_nil _ _) goes, List.map_cons, ← same]
          exact follows.trans (induction (follows.orderly orderly) behind fun token member =>
            free token (List.mem_cons_of_mem _ member))

end ParseState

theorem Script.tokens_map_read (tokens : List Token) : Script.tokens (tokens.map .read) = tokens := by
  induction tokens with
  | nil => rfl
  | cons first others induction => rw [List.map_cons, tokens_read, induction]

theorem Script.errors_map_read (tokens : List Token) : Script.errors (tokens.map .read) = [] := by
  induction tokens with
  | nil => rfl
  | cons first others induction => exact induction

/-- Where a rule was abandoned, everything up to the fence is consumed, and one error
is reported. -/
theorem Step.recover_of_proceeds {n : Nat} {α : Type} {s t : ParseState}
    {fence inner : List Token} (proceeds : s.Proceeds fence (none : Option α) t)
    (tokens : s.tokens = inner ++ fence) (bounded : t.unread.length < n) :
    ∃ script, script.tokens = inner ∧ script.errors.length = 1 ∧
      s.Follows script (recover Kind.endsCommand t bounded).state := by
  cases proceeds with
  | @broken front last problem follows mild fenced =>
      obtain ⟨others, left, isInner⟩ := fenced.split
      have whole : inner = front.tokens ++ others := by
        rw [follows.tokens, left, ← List.append_assoc] at tokens
        exact (List.append_cancel_right tokens).symm
      have heard := ParseState.follows_refuse fenced.calm fenced.unread_ne_nil problem
      have goes : ∀ token ∈ others, token.kind.endsCommand = false := by
        intro token member
        have inside := isInner token member
        rw [Kind.isInner, Bool.and_eq_true, Bool.not_eq_true'] at inside
        exact inside.1
      have skipped := ParseState.follows_skip_to (heard.orderly fenced.toOrderly) fenced.closed left goes
      have state : (recover Kind.endsCommand (last.refuse problem) bounded).state =
          (last.refuse problem).calm.skipTo Kind.endsCommand := rfl
      rw [state]
      refine ⟨_, ?_, ?_, follows.trans (heard.trans skipped)⟩
      · simp only [Script.tokens_append, Script.tokens_say, Script.tokens_nil, Script.tokens_map_read,
          List.nil_append, whole]
      · rw [Script.errors_append, mild.errors, Script.errors_append, Script.errors_map_read]
        rfl

namespace Rule

open ParseState

variable {n m : Nat} {s t : ParseState} {fence inner : List Token}

theorem command_or_none_of_fenced (fenced : s.Fenced fence) (tokens : s.tokens = inner ++ fence)
    (bounded : s.unread.length < n) (fails : (Step.commandOrNone n s bounded).value = none) :
    ∃ script, script.tokens = inner ∧ script.errors.length = 1 ∧
      s.Follows script (Step.commandOrNone n s bounded).state := by
  let single : Rule n Command := command n
  have failed : (single.run s bounded).value = none := fails
  have proceeds := passes_command n s bounded fenced
  rw [failed] at proceeds
  exact Step.recover_of_proceeds proceeds tokens
    (Nat.lt_of_le_of_lt (single.run s bounded).noMore bounded)

end Rule

namespace ParseState

/-- States that look ahead to the same tokens, and that have made the same remarks
since `s₀` and `t₀`. At the end of the text remarks may be kept silent, so nothing is
said about them there. -/
structure SameCourse (s₀ t₀ s t : ParseState) : Prop where
  tokens : s.tokens = t.tokens
  panicking : s.panicking = t.panicking
  remarks : s.unread ≠ [] → ∃ made, s.remarks = s₀.remarks ++ made ∧ t.remarks = t₀.remarks ++ made
  orderly : s.Orderly
  orderly' : t.Orderly

namespace SameCourse

variable {s₀ t₀ s t : ParseState}

theorem current (same : SameCourse s₀ t₀ s t) : s.current = t.current := by
  have heads := s.head_tokens
  rw [same.tokens, t.head_tokens] at heads
  exact (Option.some.inj heads).symm

theorem length (same : SameCourse s₀ t₀ s t) : s.unread.length = t.unread.length := by
  have lengths := congrArg List.length same.tokens
  simpa [ParseState.tokens] using lengths

theorem unread_ne_nil (same : SameCourse s₀ t₀ s t) (more : s.unread ≠ []) : t.unread ≠ [] := by
  rw [← List.length_pos_iff] at more ⊢
  rwa [← same.length]

theorem advance (same : SameCourse s₀ t₀ s t) (more : s.unread ≠ []) :
    SameCourse s₀ t₀ s.advance t.advance := by
  obtain ⟨arrival, rest, unread⟩ := List.exists_cons_of_ne_nil more
  obtain ⟨arrival', rest', unread'⟩ := List.exists_cons_of_ne_nil (same.unread_ne_nil more)
  have first := follows_advance same.orderly unread
  have second := follows_advance same.orderly' unread'
  have tokens := same.tokens
  rw [first.tokens, second.tokens] at tokens
  refine ⟨(List.cons.inj tokens).2, ?_, ?_, first.orderly same.orderly,
    second.orderly same.orderly'⟩
  · rw [first.panicking, second.panicking, same.panicking]
  · intro _
    obtain ⟨made, remarks, remarks'⟩ := same.remarks more
    refine ⟨made, ?_, ?_⟩
    · rw [first.remarks, remarks]
      exact List.append_nil _
    · rw [second.remarks, remarks']
      exact List.append_nil _

theorem refuse (same : SameCourse s₀ t₀ s t) (problem : SyntacticProblem) :
    SameCourse s₀ t₀ (s.refuse problem) (t.refuse problem) := by
  refine ⟨same.tokens, rfl, ?_, ⟨same.orderly.1, same.orderly.2⟩,
    ⟨same.orderly'.1, same.orderly'.2⟩⟩
  intro more
  obtain ⟨made, remarks, remarks'⟩ := same.remarks more
  have heard : s.unread.isEmpty = false := by simpa using more
  have heard' : t.unread.isEmpty = false := by simpa using same.unread_ne_nil more
  refine ⟨made ++ [.about .error s.current (.syntactic problem)], ?_, ?_⟩
  · simp [remarks_refuse, heard, remarks]
  · simp [remarks_refuse, heard', remarks', same.current]

theorem warn {token other : Token} (same : SameCourse s₀ t₀ s t) (problem : SyntacticProblem)
    (alike : token = other) : SameCourse s₀ t₀ (s.warn token problem) (t.warn other problem) := by
  subst alike
  refine ⟨same.tokens, same.panicking, ?_, ⟨same.orderly.1, same.orderly.2⟩,
    ⟨same.orderly'.1, same.orderly'.2⟩⟩
  intro more
  obtain ⟨made, remarks, remarks'⟩ := same.remarks more
  refine ⟨made ++ [.about .warning token (.syntactic problem)], ?_, ?_⟩
  · rw [(follows_warn s token problem).remarks, remarks, List.append_assoc]
    rfl
  · rw [(follows_warn t token problem).remarks, remarks', List.append_assoc]
    rfl

theorem calm (same : SameCourse s₀ t₀ s t) : SameCourse s₀ t₀ s.calm t.calm :=
  ⟨same.tokens, rfl, same.remarks, ⟨same.orderly.1, same.orderly.2⟩,
    ⟨same.orderly'.1, same.orderly'.2⟩⟩

end SameCourse

theorem parallel_same_course (s₀ t₀ : ParseState) : Parallel .whole (SameCourse s₀ t₀) where
  current same := same.current
  unread same := same.length
  panicking same := same.panicking
  advance same more := same.advance more
  refuse problem same := same.refuse problem
  warn problem same alike := same.warn problem alike
  calm same := same.calm

end ParseState

namespace Phrase

/-- What some list of commands does that meets `inner` in front of `fence` and passes
over it. -/
def passedOver (inner fence : List Token) : Breakage := fun script rest =>
  rest = fence ∧ script.tokens = inner ∧
    ∃ (n : Nat) (s : ParseState) (bounded : s.unread.length < n), s.Fenced fence ∧
      s.tokens = inner ++ fence ∧ (Step.commandOrNone n s bounded).value = none ∧
      s.Follows script (Step.commandOrNone n s bounded).state

end Phrase

theorem ParseState.Follows.congr {before after : ParseState} {script other : Script}
    (follows : before.Follows script after) (tokens : script.tokens = other.tokens)
    (remarks : script.remarks = other.remarks) : before.Follows other after := by
  obtain ⟨_, _, _, _, _, _, _, _, _⟩ := follows
  constructor <;> simp_all

/-- What one list of commands passes over, every one passes over. -/
theorem tolerated_passed_over {inner fence : List Token}
    (closed : Phrase.faces Kind.endsCommand fence = true)
    (isInner : ∀ token ∈ inner, token.kind.isInner = true) :
    Tolerated (Phrase.passedOver inner fence) := by
  rintro m t bounded' script rest ready offered ⟨rfl, rfl, n, s, bounded, fenced, tokens, fails, follows⟩
  have fenced' : t.Fenced rest := ⟨ready, closed, _, offered, isInner⟩
  have start : s.SameCourse t s t :=
    ⟨tokens.trans offered.symm, fenced.calm.trans ready.calm.symm,
      fun _ => ⟨[], (List.append_nil _).symm, (List.append_nil _).symm⟩, fenced.toOrderly,
      ready.toOrderly⟩
  obtain ⟨values, states⟩ := Rule.alike_command_or_none (ParseState.parallel_same_course s t)
    (Rule.alike_command (ParseState.parallel_same_course s t) n m) s t bounded bounded' start
  rw [fails] at values
  have fails' : (Step.commandOrNone m t bounded').value = none := by
    simpa using values.symm
  refine ⟨fails', ?_⟩
  obtain ⟨other, same, -, follows'⟩ := Rule.command_or_none_of_fenced fenced' offered bounded' fails'
  apply follows'.congr same
  -- The end of the text is not reached, so both have made the same remarks.
  have left : (Step.commandOrNone n s bounded).state.Fenced rest :=
    ⟨follows.ready fenced.toReady, closed, [], follows.tokens_eq tokens, by simp⟩
  obtain ⟨made, remarks, remarks'⟩ := states.remarks left.unread_ne_nil
  rw [follows.remarks] at remarks
  rw [follows'.remarks] at remarks'
  rw [List.append_cancel_left remarks, List.append_cancel_left remarks']

end TinyPascal
