import TinyPascal.Proofs.Parallel.Whole
import TinyPascal.Proofs.Reported

/-!
# An erroneous text shows an error

A parse calls a text erroneous exactly if it has reported an error of it. An error at the end
of a truncated text is kept silent, but the comment that cuts the text short has been
reported by then, because the end is pulled before it is looked at.
-/

namespace TinyPascal

set_option autoImplicit false

namespace ParseEvent

def isError (event : ParseEvent) : Bool := event.diagnostic?.any Diagnostic.isError

/-- All that the event may report is a fault of the text. -/
def IsGrave (event : ParseEvent) : Prop := ∀ found ∈ event.diagnostic?, found.IsFault

def IsOfParse (event : ParseEvent) : Prop :=
  ∀ found ∈ event.diagnostic?, found.phase = .lexical ∨ found.phase = .syntactic

theorem IsGrave.is_of_parse {event : ParseEvent} (grave : event.IsGrave) : event.IsOfParse :=
  fun found reported => .inl (grave found reported).phase

theorem IsGrave.is_some_eq {event : ParseEvent} (grave : event.IsGrave) :
    event.diagnostic?.isSome = event.isError := by
  unfold isError
  cases reported : event.diagnostic? with
  | none => rfl
  | some found => exact (grave found reported).is_error.symm

/-- Where all that is reported are faults, any report is one of an error. -/
theorem faulty_eq_any {events : List ParseEvent} (grave : ∀ event ∈ events, event.IsGrave) :
    ParseState.faulty events = events.any isError := by
  induction events with
  | nil => rfl
  | cons event events induction =>
      rw [ParseState.faulty, List.any_cons, List.any_cons, (grave event List.mem_cons_self).is_some_eq]
      exact congrArg _ (induction fun other member => grave other (List.mem_cons_of_mem event member))

end ParseEvent

namespace Reading

theorem faults_of_unclosed_comment {here : Position} {cs : List Char}
    (found : (lookAt here cs).found = .unclosedComment) : (lookAt here cs).faults ≠ [] := by
  unfold lookAt at found ⊢
  split at found
  · cases found
  · next c rest behind =>
    simp only []
    by_cases opening : c = '{'
    · rw [if_pos opening] at found ⊢
      cases closed : Lexeme.closeComment rest with
      | none => simp
      | some pair => simp [closed, token] at found
    · simp [opening, token] at found

end Reading

theorem Scan.faults_of_truncated (here : Position) (cs : List Char)
    (cut : (readFrom here cs).truncated = true) : (readFrom here cs).ending.faults ≠ [] := by
  fun_induction readFrom here cs with
  | case1 here cs reading token after rest found _ following induction => exact induction cut
  | case2 here cs reading found => cases cut
  | case3 here cs reading found => exact Reading.faults_of_unclosed_comment found

namespace Stream

theorem fault_events_ending (ending : Item) (carried : List ParseEvent) (items : List Item) :
    ∀ event ∈ faultEvents ending, event ∈ (gather ending carried items).2.events := by
  intro event member
  induction items generalizing carried with
  | nil => exact List.mem_append_right carried member
  | cons item items induction =>
      by_cases isComment : item.token.kind = .comment
      · rw [gather_comment isComment]
        exact induction _
      · rw [gather_token isComment]
        exact induction []

theorem is_grave_of_text (source : String) :
    (∀ arrival ∈ (ofText source).arrivals, ∀ event ∈ arrival.events, event.IsGrave) ∧
      ∀ event ∈ (ofText source).ending.events, event.IsGrave := by
  rcases Scan.is_fault_read_from .start source.toList with ⟨faults, endFaults⟩
  have caused : ∀ item : Item, (∀ fault ∈ item.faults, fault.IsFault) →
      ∀ event ∈ faultEvents item, event.IsGrave := by
    intro item faults event member found reported
    rcases List.mem_map.mp member with ⟨fault, met, same⟩
    rw [← same] at reported
    cases reported
    exact faults _ met
  apply events_gather
  · exact fun event member => (List.not_mem_nil member).elim
  · intro item member
    refine ⟨?_, ?_, caused item (faults item member)⟩
    · exact fun found reported => by cases reported
    · exact fun found reported => by cases reported
  · exact caused _ endFaults

theorem is_error_ending {source : String} (cut : (ofText source).truncated = true) :
    (ofText source).ending.events.any ParseEvent.isError = true := by
  rcases List.exists_mem_of_ne_nil _ (Scan.faults_of_truncated .start source.toList cut) with
    ⟨fault, met⟩
  have isFault := (Scan.is_fault_read_from .start source.toList).2 fault met
  apply List.any_eq_true.mpr
  exact ⟨.reported fault, fault_events_ending _ _ _ _ (List.mem_map_of_mem met), isFault.is_error⟩

theorem ending_pulled (ending : Arrival) {arrivals : List Arrival} {count : Nat}
    (enough : arrivals.length < count) : ending.events <:+ pulled ending arrivals count := by
  induction arrivals generalizing count with
  | nil =>
      cases count with
      | zero => cases enough
      | succ count => exact List.suffix_rfl
  | cons arrival rest induction =>
      cases count with
      | zero => cases enough
      | succ count =>
          exact (induction (Nat.lt_of_succ_lt_succ enough)).trans (List.suffix_append _ _)

end Stream

namespace ParseState

/-- The text is called erroneous exactly if an error has been reported. Where the text is
truncated, one has been as soon as the end is the next thing to be looked at. -/
structure Candid (s : ParseState) : Prop where
  agrees : s.hadError = s.trace.any ParseEvent.isError
  phases : ∀ event ∈ s.trace, event.IsOfParse
  grave : ∀ arrival ∈ s.unread, ∀ event ∈ arrival.events, event.IsGrave
  graveEnd : ∀ event ∈ s.ending.events, event.IsGrave
  cut : s.truncated = true → s.ending.events.any ParseEvent.isError = true
  shown : s.truncated = true → s.unread.length ≤ 1 → s.trace.any ParseEvent.isError = true

namespace Candid

variable {s : ParseState} {arrival : Arrival} {rest : List Arrival}

theorem pulls (candid : s.Candid) (unread : s.unread = arrival :: rest) :
    ∀ event ∈ pullEvents s.ending rest, event.IsGrave := by
  have grave := candid.grave
  rw [unread] at grave
  rcases rest with _ | ⟨_, _ | ⟨second, _⟩⟩
  · simp [pullEvents]
  · exact candid.graveEnd
  · exact grave second (by simp)

/-- The end of a truncated text is pulled with the last token but one. -/
theorem shown_advance (candid : s.Candid) (unread : s.unread = arrival :: rest)
    (cut : s.truncated = true) (few : rest.length ≤ 1) :
    ((pullEvents s.ending rest).reverse ++ s.trace).any ParseEvent.isError = true := by
  rw [List.any_append, List.any_reverse, Bool.or_eq_true]
  rcases rest with _ | ⟨_, _ | ⟨_, _⟩⟩
  · exact .inr (candid.shown cut (by simp [unread]))
  · exact .inl (candid.cut cut)
  · simp at few

theorem advance (candid : s.Candid) (more : s.unread ≠ []) : s.advance.Candid := by
  rcases List.exists_cons_of_ne_nil more with ⟨arrival, rest, unread⟩
  have pulled := candid.pulls unread
  rw [advance_of_unread unread]
  constructor
  case agrees =>
    show (s.hadError || faulty (pullEvents s.ending rest)) =
      (((pullEvents s.ending rest).reverse ++ s.trace).any ParseEvent.isError)
    rw [ParseEvent.faulty_eq_any pulled, candid.agrees, List.any_append, List.any_reverse,
      Bool.or_comm]
  case phases =>
    intro event member
    rcases List.mem_cons.mp member with rfl | member
    · exact fun found reported => by cases reported
    · rcases List.mem_append.mp member with member | member
      · exact (pulled event (List.mem_reverse.mp member)).is_of_parse
      · exact candid.phases event member
  case grave =>
    intro other member
    exact candid.grave other (unread ▸ List.mem_cons_of_mem _ member)
  case graveEnd => exact candid.graveEnd
  case cut => exact candid.cut
  case shown => exact candid.shown_advance unread

/-- An error of the grammar is reported, or it is met where the text is cut short. -/
theorem refuse (candid : s.Candid) (problem : SyntacticProblem) : (s.refuse problem).Candid := by
  have error : (s.refuse problem).trace.any ParseEvent.isError = true := by
    unfold ParseState.refuse
    simp only []
    split
    · next silent =>
      rw [Bool.and_eq_true, List.isEmpty_iff] at silent
      exact candid.shown silent.1 (by simp [silent.2])
    · rfl
  refine ⟨error.symm, ?_, candid.grave, candid.graveEnd, candid.cut, fun _ _ => error⟩
  unfold ParseState.refuse
  simp only []
  split
  · exact candid.phases
  · intro event member
    rcases List.mem_cons.mp member with rfl | member
    · exact fun found reported => .inr (by cases reported; rfl)
    · exact candid.phases event member

theorem warn (candid : s.Candid) (token : Token) (problem : SyntacticProblem) :
    (s.warn token problem).Candid := by
  refine ⟨candid.agrees, ?_, candid.grave, candid.graveEnd, candid.cut, candid.shown⟩
  intro event member
  rcases List.mem_cons.mp member with rfl | member
  · exact fun found reported => .inr (by cases reported; rfl)
  · exact candid.phases event member

theorem lasting : Lasting Candid where
  advance candid more := candid.advance more
  refuse problem candid := candid.refuse problem
  warn token problem candid := candid.warn token problem
  calm candid := ⟨candid.agrees, candid.phases, candid.grave, candid.graveEnd, candid.cut,
    candid.shown⟩

end Candid

theorem candid_start (source : String) : (start (.ofText source)).Candid := by
  rcases Stream.is_grave_of_text source with ⟨grave, graveEnd⟩
  have pulled := events_pulled grave graveEnd 2
  rw [start_eq]
  constructor
  case agrees => rw [List.any_reverse, ParseEvent.faulty_eq_any pulled]
  case phases =>
    intro event member
    exact (pulled event (List.mem_reverse.mp member)).is_of_parse
  case grave => exact grave
  case graveEnd => exact graveEnd
  case cut => exact Stream.is_error_ending
  case shown =>
    intro cut few
    rcases List.any_eq_true.mp (Stream.is_error_ending cut) with ⟨event, member, error⟩
    have pulls := Stream.ending_pulled (Stream.ofText source).ending (Nat.lt_succ_of_le few)
    exact List.any_eq_true.mpr ⟨event, List.mem_reverse.mpr (pulls.subset member), error⟩

end ParseState

namespace Parse

open ParseState

theorem candid_final (source : String) : (finalState (.ofText source)).Candid :=
  Candid.lasting.program (fits _) (candid_start source)

theorem had_error_eq_has_errors (source : String) :
    (ofText source).hadError = (ofText source).diagnostics.hasErrors := by
  have agrees : (ofText source).hadError =
      (finalState (.ofText source)).trace.any ParseEvent.isError := (candid_final source).agrees
  have trace : (finalState (.ofText source)).trace = (ofText source).events.reverse :=
    (List.reverse_reverse _).symm
  rw [agrees, trace, List.any_reverse, Diagnostics.hasErrors, diagnostics, List.any_filterMap]
  rfl

theorem phase_of_reported {source : String} {found : Diagnostic}
    (reported : found ∈ (ofText source).diagnostics) :
    found.phase = .lexical ∨ found.phase = .syntactic := by
  rcases List.mem_filterMap.mp reported with ⟨event, happened, reports⟩
  exact (candid_final source).phases event (List.mem_reverse.mp happened) found reports

/-- The error flag and the reports of a parse agree. The flag is up exactly if an error of the
text or of its grammar has been reported, and down exactly if nothing but warnings has. An
error that is kept silent therefore never stands alone. -/
theorem error_flag_agrees_with_reports (source : String) :
    ((ofText source).hadError = true ↔ ∃ found ∈ (ofText source).diagnostics,
      found.severity = .error ∧ (found.phase = .lexical ∨ found.phase = .syntactic)) ∧
    ((ofText source).hadError = false ↔
      ∀ found ∈ (ofText source).diagnostics, found.severity = .warning) := by
  have isError : ∀ found : Diagnostic, found.isError = true ↔ found.severity = .error := by
    intro found
    exact decide_eq_true_iff
  have isWarning : ∀ found : Diagnostic, found.isError = false ↔ found.severity = .warning := by
    intro found
    rw [Diagnostic.isError, decide_eq_false_iff_not]
    cases found.severity <;> simp
  rw [had_error_eq_has_errors, Diagnostics.hasErrors]
  constructor
  · rw [List.any_eq_true]
    constructor
    · intro shows
      rcases shows with ⟨found, reported, error⟩
      exact ⟨found, reported, (isError found).mp error, phase_of_reported reported⟩
    · intro shows
      rcases shows with ⟨found, reported, error, -⟩
      exact ⟨found, reported, (isError found).mpr error⟩
  · simp only [List.any_eq_false, Bool.not_eq_true, isWarning]

end Parse

end TinyPascal
