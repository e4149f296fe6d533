import TinyPascal.Proofs.Discipline.Pending
import TinyPascal.Proofs.Discipline.Rules
import TinyPascal.Proofs.Parallel.Layout

/-!
# No token is blamed twice

A parse reports its remarks in the order of the text, and blames every token at most once.
Where a recovery stops at a token that was refused, the rule that goes on from there
consumes it; this is what the discipline of the parser amounts to.
-/

namespace TinyPascal

set_option autoImplicit false

namespace ParseState

/-- The remarks made so far stand in the order of the text, up to the token now looked at. An
error about a token is pending, and is then about the token now looked at, or it stands
before that. -/
structure Tidy (mark : Token) (s : ParseState) : Prop where
  ending : s.ending.token = mark
  orderly : s.Orderly
  ordered : s.tokens.Pairwise Token.Precedes
  sorted : s.remarks.Pairwise fun first second => first.notAfter second = true
  reached : ∀ remark ∈ s.remarks, remark.UpTo s.current
  increasing : (s.remarks.filter (Diagnostic.blames mark)).Pairwise Diagnostic.Precedes
  answered : Answered mark s.trace
  past : ∀ remark ∈ s.remarks, remark.blames mark = true →
    remark ∈ pending mark s.trace ∨ remark.Before s.current
  here : ∀ remark ∈ pending mark s.trace, remark.isAt s.current = true

theorem Orderly.pulls {s : ParseState} {arrival : Arrival} {rest : List Arrival}
    (orderly : s.Orderly) (unread : s.unread = arrival :: rest) :
    ∀ event ∈ (pullEvents s.ending rest).reverse, event.IsLexical := by
  intro event member
  apply lexical_pull_events _ orderly.lexicalEnd event (List.mem_reverse.mp member)
  intro other found
  exact orderly.lexical other (unread ▸ List.mem_cons_of_mem _ found)

theorem pending_warn (mark : Token) (s : ParseState) (token : Token) (problem : SyntacticProblem) :
    pending mark (s.warn token problem).trace = pending mark s.trace := by
  rw [warn, pending, Diagnostic.blames_warning]
  rfl

namespace Tidy

variable {mark : Token} {s : ParseState} {arrival : Arrival} {rest : List Arrival}

theorem precedes (tidy : s.Tidy mark) (unread : s.unread = arrival :: rest) :
    arrival.token.Precedes s.advance.current := by
  have ordered := tidy.ordered
  rw [tokens, unread, List.map_cons, List.cons_append] at ordered
  have beyond := (List.pairwise_cons.mp ordered).1
  have follows := follows_advance tidy.orderly unread
  rw [current, unread_advance, unread, List.tail_cons]
  cases rest with
  | nil =>
      rw [follows.ending]
      exact beyond _ (List.mem_singleton.mpr rfl)
  | cons second others => exact beyond _ List.mem_cons_self

theorem pending_advance (tidy : s.Tidy mark) (unread : s.unread = arrival :: rest) :
    pending mark s.advance.trace = [] := by
  rw [advance_of_unread unread, pending, pending_lexical (tidy.orderly.pulls unread)]
  apply List.filter_eq_nil_iff.mpr
  intro remark member
  have here := tidy.here remark member
  rw [s.current_of_unread unread] at here
  simp [here]

theorem advance (tidy : s.Tidy mark) (unread : s.unread = arrival :: rest) : s.advance.Tidy mark := by
  have follows := follows_advance tidy.orderly unread
  have precedes := tidy.precedes unread
  have none := tidy.pending_advance unread
  have remarks : s.advance.remarks = s.remarks := follows.remarks.trans (List.append_nil _)
  have before : ∀ remark ∈ s.remarks, remark.Before s.advance.current := by
    intro remark member
    have upTo := tidy.reached remark member
    rw [s.current_of_unread unread] at upTo
    exact upTo.before precedes
  constructor
  case ending => rw [follows.ending, tidy.ending]
  case orderly => exact orderly_advance tidy.orderly
  case ordered =>
    have ordered := tidy.ordered
    rw [follows.tokens] at ordered
    exact (List.pairwise_cons.mp ordered).2
  case sorted =>
    rw [remarks]
    exact tidy.sorted
  case reached =>
    rw [remarks]
    intro remark member
    exact (before remark member).up_to
  case increasing =>
    rw [remarks]
    exact tidy.increasing
  case answered =>
    rw [advance_of_unread unread]
    exact answered_lexical (tidy.orderly.pulls unread) tidy.answered
  case past =>
    rw [remarks]
    intro remark member _
    exact .inr (before remark member)
  case here =>
    rw [none]
    exact List.forall_mem_nil _

/-- At the end of the text nothing is pending: an error there blames no token. -/
theorem pending_at_end (tidy : s.Tidy mark) (ended : s.unread = []) : pending mark s.trace = [] := by
  apply List.eq_nil_iff_forall_not_mem.mpr
  intro remark member
  have here := tidy.here remark member
  have blames := blames_of_pending member
  rw [current, ended, tidy.ending] at here
  rw [Diagnostic.blames, here] at blames
  simp at blames

theorem sorted_concat (tidy : s.Tidy mark) {token : Token} (severity : Severity) (problem : Problem)
    (behind : ∀ remark ∈ s.remarks, remark.UpTo token) :
    (s.remarks ++ [Diagnostic.about severity token problem]).Pairwise fun first second =>
      first.notAfter second = true := by
  apply List.pairwise_append.mpr
  refine ⟨tidy.sorted, List.pairwise_singleton _ _, ?_⟩
  intro remark member last same
  rw [List.mem_singleton.mp same]
  exact Diagnostic.not_after_about (behind remark member)

theorem reached_concat (tidy : s.Tidy mark) {remark : Diagnostic} (upTo : remark.UpTo s.current) :
    ∀ other ∈ s.remarks ++ [remark], other.UpTo s.current := by
  intro other member
  rcases List.mem_append.mp member with member | member
  · exact tidy.reached other member
  · rw [List.mem_singleton.mp member]
    exact upTo

theorem warn (tidy : s.Tidy mark) {token : Token} (problem : SyntacticProblem)
    (behind : ∀ remark ∈ s.remarks, remark.UpTo token)
    (reached : (Diagnostic.about .warning token (.syntactic problem)).UpTo s.current) :
    (s.warn token problem).Tidy mark := by
  have remarks : (s.warn token problem).remarks =
      s.remarks ++ [.about .warning token (.syntactic problem)] :=
    (follows_warn s token problem).remarks
  constructor
  case ending => exact tidy.ending
  case orderly => exact ⟨tidy.orderly.1, tidy.orderly.2⟩
  case ordered => exact tidy.ordered
  case sorted =>
    rw [remarks]
    exact tidy.sorted_concat _ _ behind
  case reached =>
    rw [remarks]
    exact tidy.reached_concat reached
  case increasing =>
    rw [remarks, List.filter_append]
    exact (List.append_nil _).symm ▸ tidy.increasing
  case answered =>
    refine ⟨?_, tidy.answered⟩
    intro isError
    cases isError
  case past =>
    rw [remarks, pending_warn]
    intro remark member blames
    rcases List.mem_append.mp member with member | member
    · exact tidy.past remark member blames
    · rw [List.mem_singleton.mp member] at blames
      cases blames
  case here =>
    rw [pending_warn]
    exact tidy.here

/-- An error at the end of a truncated text leaves no mark. -/
theorem refuse_silently (tidy : s.Tidy mark) (problem : SyntacticProblem)
    (silent : (s.truncated && s.unread.isEmpty) = true) : (s.refuse problem).Tidy mark := by
  have trace : (s.refuse problem).trace = s.trace := by
    unfold ParseState.refuse
    exact if_pos silent
  have remarks : (s.refuse problem).remarks = s.remarks := by
    rw [remarks_refuse, if_pos silent]
  exact ⟨tidy.ending, ⟨tidy.orderly.1, tidy.orderly.2⟩, tidy.ordered, remarks ▸ tidy.sorted,
    remarks ▸ tidy.reached, remarks ▸ tidy.increasing, trace ▸ tidy.answered,
    remarks ▸ trace ▸ tidy.past, trace ▸ tidy.here⟩

/-- Where nothing is pending, every token blamed before stands before the one now looked at. -/
theorem before_of_none (tidy : s.Tidy mark) (none : pending mark s.trace = []) {remark : Diagnostic}
    (member : remark ∈ s.remarks) (blames : remark.blames mark = true) : remark.Before s.current := by
  have either := tidy.past remark member blames
  rw [none] at either
  exact either.resolve_left (List.not_mem_nil)

theorem increasing_concat (tidy : s.Tidy mark) (none : pending mark s.trace = [])
    (severity : Severity) (problem : Problem) :
    ((s.remarks ++ [Diagnostic.about severity s.current problem]).filter
      (Diagnostic.blames mark)).Pairwise Diagnostic.Precedes := by
  rw [List.filter_append]
  apply List.pairwise_append.mpr
  refine ⟨tidy.increasing, (List.pairwise_singleton _ _).filter _, ?_⟩
  intro remark member last same
  rcases List.mem_filter.mp member with ⟨member, blames⟩
  rw [List.mem_singleton.mp (List.mem_of_mem_filter same)]
  exact tidy.before_of_none none member blames

theorem refuse (tidy : s.Tidy mark) (none : pending mark s.trace = []) (problem : SyntacticProblem) :
    (s.refuse problem).Tidy mark := by
  by_cases silent : (s.truncated && s.unread.isEmpty) = true
  · exact tidy.refuse_silently problem silent
  generalize isError : Diagnostic.about .error s.current (.syntactic problem) = error
  have upTo : error.UpTo s.current := isError ▸ Diagnostic.up_to_about
  have trace : (s.refuse problem).trace = .reported error :: s.trace := by
    unfold ParseState.refuse
    rw [← isError]
    exact if_neg silent
  have remarks : (s.refuse problem).remarks = s.remarks ++ [error] := by
    rw [remarks_refuse, if_neg silent, isError]
  have waits : pending mark (s.refuse problem).trace = if error.blames mark then [error] else [] := by
    rw [trace, pending, none]
  constructor
  case ending => exact tidy.ending
  case orderly => exact ⟨tidy.orderly.1, tidy.orderly.2⟩
  case ordered => exact tidy.ordered
  case sorted =>
    rw [remarks, ← isError]
    exact tidy.sorted_concat _ _ tidy.reached
  case reached =>
    rw [remarks]
    exact tidy.reached_concat upTo
  case increasing =>
    rw [remarks, ← isError]
    exact tidy.increasing_concat none _ _
  case answered =>
    rw [trace]
    exact ⟨fun _ => none, tidy.answered⟩
  case past =>
    rw [remarks, waits]
    intro remark member blames
    rcases List.mem_append.mp member with member | member
    · exact .inr (tidy.before_of_none none member blames)
    · left
      rw [List.mem_singleton.mp member] at blames ⊢
      rw [if_pos blames]
      exact List.mem_cons_self
  case here =>
    rw [waits]
    intro remark member
    split at member
    · rw [List.mem_singleton.mp member, ← isError]
      exact Diagnostic.is_at_about _ _ _
    · cases member

end Tidy

/-- The discipline of blame: reading goes on at a token that is blamed already only if it is of
one of the kinds that are consumed there. -/
def blameDiscipline (mark : Token) : Discipline where
  held kinds s := s.panicking = false ∧ s.Tidy mark ∧
    (pending mark s.trace ≠ [] → kinds s.current.kind = true)
  behind token s := s.panicking = false ∧ s.Tidy mark ∧ pending mark s.trace = [] ∧
    token.Precedes s.current ∧ ∀ remark ∈ s.remarks, remark.UpTo token
  broken s := s.panicking = true ∧ s.Tidy mark
  calm_of_held held := held.1
  panicking_of_broken broken := broken.1
  narrow held wider := ⟨held.1, held.2.1, fun some => wider (held.2.2 some)⟩
  atEnd held ended := ⟨held.1, held.2.1, fun some => absurd (held.2.1.pending_at_end ended) some⟩
  advance := by
    intro kinds s arrival rest held unread
    rcases held with ⟨calm, tidy, -⟩
    have follows := follows_advance tidy.orderly unread
    refine ⟨follows.panicking.trans calm, tidy.advance unread, tidy.pending_advance unread,
      tidy.precedes unread, ?_⟩
    intro remark member
    rw [follows.remarks.trans (List.append_nil _)] at member
    have upTo := tidy.reached remark member
    rw [s.current_of_unread unread] at upTo
    exact upTo
  passed behind := ⟨behind.1, behind.2.1, fun some => absurd behind.2.2.1 some⟩
  refuse := by
    intro s problem clear
    rcases clear with ⟨calm, tidy, unsuspected⟩
    have none : pending mark s.trace = [] := by
      by_contra some
      exact Bool.false_ne_true (unsuspected some)
    exact ⟨rfl, tidy.refuse none problem⟩
  warnBehind := by
    intro token s problem behind
    rcases behind with ⟨calm, tidy, none, precedes, upTo⟩
    refine ⟨calm, tidy.warn problem upTo (Diagnostic.up_to_about.before precedes).up_to, ?_⟩
    rw [pending_warn]
    exact fun some => absurd none some
  warnHere := by
    intro s problem clear
    rcases clear with ⟨calm, tidy, unsuspected⟩
    refine ⟨calm, tidy.warn problem tidy.reached Diagnostic.up_to_about, ?_⟩
    rw [pending_warn]
    exact unsuspected
  calm broken := by
    rcases broken with ⟨-, tidy⟩
    exact ⟨rfl, ⟨tidy.ending, ⟨tidy.orderly.1, tidy.orderly.2⟩, tidy.ordered, tidy.sorted,
      tidy.reached, tidy.increasing, tidy.answered, tidy.past, tidy.here⟩, fun _ => rfl⟩

theorem tidy_start {stream : Stream} (lexical : stream.Lexical)
    (ordered : stream.tokens.Pairwise Token.Precedes) :
    (start stream).Tidy stream.ending.token ∧
      pending stream.ending.token (start stream).trace = [] := by
  have remarks := (consumed_start lexical).2
  have events : ∀ event ∈ (start stream).trace, event.IsLexical := by
    rw [start_eq]
    intro event member
    exact lexical_pulled lexical 2 event (List.mem_reverse.mp member)
  have none := @pending_lexical stream.ending.token (start stream).trace [] events
  have answered := @answered_lexical stream.ending.token (start stream).trace [] events trivial
  rw [List.append_nil] at none answered
  refine ⟨⟨?_, (ready_start lexical).toOrderly, ?_, ?_, ?_, ?_, answered, ?_, ?_⟩, none⟩
  · rw [ending_start]
  · rw [Parse.tokens_start]
    exact ordered
  · rw [remarks]
    exact .nil
  · rw [remarks]
    exact List.forall_mem_nil _
  · rw [remarks]
    exact .nil
  · rw [remarks]
    exact List.forall_mem_nil _
  · rw [none]
    exact List.forall_mem_nil _

theorem tidy_final {stream : Stream} (lexical : stream.Lexical)
    (ordered : stream.tokens.Pairwise Token.Precedes) :
    (Parse.finalState stream).Tidy stream.ending.token := by
  rcases tidy_start lexical ordered with ⟨tidy, none⟩
  have clear : (blameDiscipline stream.ending.token).clear (start stream) :=
    ⟨panicking_start _, tidy, fun some => absurd none some⟩
  rcases (Discipline.clears_program _).meets _ (fits _) clear with held | broken
  · exact held.2.1
  · exact broken.2

end ParseState

namespace Parse

open ParseState

/-- No token is blamed twice. The remarks of a parse are reported in the order of the text, and
the errors that are not at its end stand at places that strictly increase: between an
error at a token and any later syntax error, that token is consumed. -/
theorem no_token_is_blamed_twice (source : String) :
    ((ofText source).diagnostics.ofPhase .syntactic).Pairwise
        (fun first second => first.notAfter second = true) ∧
      (((ofText source).diagnostics.ofPhase .syntactic).filter fun found =>
        found.isError && !found.isAt (Scan.ofText source).ending.token).Pairwise
        Diagnostic.Precedes ∧
      ∀ (earlier between later : List ParseEvent) (first second : Diagnostic),
        (ofText source).events =
          earlier ++ .reported first :: (between ++ .reported second :: later) →
        first.isSyntaxError = true → second.isSyntaxError = true →
        first.isAt (Scan.ofText source).ending.token = false →
        ∃ token, .consumed token ∈ between ∧ first.isAt token = true := by
  have tidy := tidy_final (Stream.lexical_of_text source) (Stream.ordered source)
  have mark : (Stream.ofText source).ending.token = (Scan.ofText source).ending.token :=
    (Stream.tokens_gather _ _ _).2
  rw [mark] at tidy
  have remarks : (finalState (.ofText source)).remarks =
      (ofText source).diagnostics.ofPhase .syntactic := remarks_eq (ofText source)
  refine ⟨?_, ?_, ?_⟩
  · rw [← remarks]
    exact tidy.sorted
  · have same : ((ofText source).diagnostics.ofPhase .syntactic).filter
        (Diagnostic.blames (Scan.ofText source).ending.token) =
        ((ofText source).diagnostics.ofPhase .syntactic).filter fun found =>
          found.isError && !found.isAt (Scan.ofText source).ending.token := by
      apply List.filter_congr
      intro found member
      have phase := (List.mem_filter.mp member).2
      rw [Diagnostic.blames, Diagnostic.isSyntaxError, phase, Bool.true_and]
    rw [← same, ← remarks]
    exact tidy.increasing
  · intro earlier between later first second events isError isError' apart
    have trace : (finalState (.ofText source)).trace = (ofText source).events.reverse :=
      (List.reverse_reverse _).symm
    have blames : first.blames (Scan.ofText source).ending.token = true := by
      rw [Diagnostic.blames, isError, apart]
      rfl
    have answered := tidy.answered
    rw [trace, events] at answered
    simp only [List.reverse_append, List.reverse_cons, List.append_assoc, List.cons_append,
      List.nil_append] at answered
    rcases answered.consumed_between isError' blames with ⟨token, consumed, here⟩
    exact ⟨token, List.mem_reverse.mp consumed, here⟩

/-- The recovery from a missing expression stops at the semicolon that is blamed for it. The
semicolon is consumed before the next error. -/
theorem blamed_semicolon_is_consumed :
    ∃ (earlier between later : List ParseEvent) (first second : Diagnostic),
      (ofText "program p; begin x := ; y := end").events =
        earlier ++ .reported first :: (between ++ .reported second :: later) ∧
      first = ⟨.error, 1, 23, .syntactic (.factor ";")⟩ ∧ second.isSyntaxError = true ∧
      first.isAt (Scan.ofText "program p; begin x := ; y := end").ending.token = false ∧
      ∃ token, .consumed token ∈ between ∧ first.isAt token = true := by
  have events : (ofText "program p; begin x := ; y := end").events =
      (ofText "program p; begin x := ; y := end").events.take 14 ++
        .reported ⟨.error, 1, 23, .syntactic (.factor ";")⟩ ::
          (((ofText "program p; begin x := ; y := end").events.drop 15).take 5 ++
            .reported ⟨.error, 1, 30, .syntactic (.factor "end")⟩ ::
              (ofText "program p; begin x := ; y := end").events.drop 21) := by
    decide +kernel
  have apart : Diagnostic.isAt (Scan.ofText "program p; begin x := ; y := end").ending.token
      ⟨.error, 1, 23, .syntactic (.factor ";")⟩ = false := by decide +kernel
  have consumed := (no_token_is_blamed_twice _).2.2 _ _ _ _ _ events rfl rfl apart
  exact ⟨_, _, _, _, _, events, rfl, rfl, apart, consumed⟩

end Parse

end TinyPascal
