import TinyPascal.Parser.Program
import TinyPascal.Proofs.Scoping.Findings

/-!
# Unused declarations

A scope is closed behind everything that can use its names. So what is unused by then is unused
in the whole program, and it is reported there, once.
-/

namespace TinyPascal

set_option autoImplicit false

namespace Stops

variable {stops rest : Stops} {scope : Address}

/-- A stop that can not touch what `scope` holds. -/
def Away (scope : Address) (stop : Stop) : Prop :=
  (∀ naming, stop.act ≠ .naming naming) ∨ ¬scope <:+ stop.scope

theorem accepted?_of_away {stop : Stop} (away : Away scope stop) (past : Stops) :
    stop.accepted? scope past = none := by
  cases accepted : stop.accepted? scope past with
  | none => rfl
  | some declared =>
      rcases accepted?_eq_some.mp accepted with ⟨rfl, _⟩
      cases away with
      | inl quiet => exact absurd rfl (quiet _)
      | inr outside => exact absurd List.suffix_rfl outside

theorem touches_of_away {stop : Stop} (away : Away scope stop) (test : Naming → Meaning → Bool)
    (declared : Declared) (past : Stops) : stop.touches test ⟨scope, declared⟩ past = false := by
  unfold Stop.touches
  split
  · next naming act =>
    cases away with
    | inl quiet => exact absurd act (quiet naming)
    | inr outside =>
        have different : resolve past stop.scope naming.name ≠ some ⟨scope, declared⟩ := by
          intro found
          exact outside (resolve_eq_some found).1
        simp [different]
  · rfl

theorem accepted_in_append_of_away (away : ∀ stop ∈ rest, Away scope stop) :
    acceptedIn (stops ++ rest) scope = acceptedIn stops scope := by
  unfold acceptedIn
  rw [with_past_append, List.filterMap_append, List.append_right_eq_self,
    List.filterMap_eq_nil_iff]
  rintro ⟨past, stop⟩ member
  rcases mem_with_past.mp member with ⟨before, behind, same, _⟩
  exact accepted?_of_away (away stop (by simp [same])) past

theorem touched_append_of_away (away : ∀ stop ∈ rest, Away scope stop)
    (test : Naming → Meaning → Bool) (declared : Declared) :
    touched test (stops ++ rest) ⟨scope, declared⟩ = touched test stops ⟨scope, declared⟩ := by
  unfold touched
  rw [with_past_append, List.any_append, Bool.or_eq_left_iff_imp]
  intro touches
  rcases List.any_eq_true.mp touches with ⟨⟨past, stop⟩, member, touch⟩
  rcases mem_with_past.mp member with ⟨before, behind, same, _⟩
  simp [touches_of_away (away stop (by simp [same])) test declared past] at touch

theorem unused_in_append_of_away (away : ∀ stop ∈ rest, Away scope stop) :
    unusedIn (stops ++ rest) scope = unusedIn stops scope := by
  unfold unusedIn
  rw [accepted_in_append_of_away away]
  simp only [touched_append_of_away away]

theorem away_of_closed {program : Program} {before behind : Stops} {stop : Stop}
    (parts : program.itinerary = before ++ stop :: behind) (ends : stop.closed? = some scope) :
    ∀ later ∈ stop :: behind, Away scope later := by
  have apart := program.itinerary_apart
  rw [parts] at apart
  have further := (List.pairwise_cons.mp (List.pairwise_append.mp apart).2.1).1
  intro later member
  unfold Stop.closed? at ends
  rw [List.mem_cons] at member
  cases member with
  | inl same =>
      apply Or.inl
      rw [same]
      split at ends
      · next act => simp [act]
      · next act => simp [act]
      · cases ends
  | inr behind =>
      apply Or.inr
      split at ends
      · next act =>
        cases ends
        exact (further later behind).closed act
      · next act => exact absurd act (further later behind).unfinished
      · cases ends

theorem unused_in_of_closed {program : Program} {before behind : Stops} {stop : Stop}
    (parts : program.itinerary = before ++ stop :: behind) (ends : stop.closed? = some scope) :
    unusedIn program.itinerary scope = unusedIn before scope := by
  rw [parts]
  exact unused_in_append_of_away (away_of_closed parts ends)

theorem mem_unused_in {declared : Declared} :
    declared ∈ unusedIn stops scope ↔
      declared ∈ acceptedIn stops scope ∧ declared.isProgram = false ∧
        ∀ before place naming behind, stops = before ++ ⟨place, .naming naming⟩ :: behind →
          resolve before place naming.name = some ⟨scope, declared⟩ →
            naming.uses declared.meaning = false := by
  have untouched : touched Naming.uses stops ⟨scope, declared⟩ = false ↔
      ∀ before place naming behind, stops = before ++ ⟨place, .naming naming⟩ :: behind →
        resolve before place naming.name = some ⟨scope, declared⟩ →
          naming.uses declared.meaning = false := by
    unfold touched
    rw [List.any_eq_false]
    constructor
    · intro never before place naming behind same found
      have unused := never (before, ⟨place, .naming naming⟩)
        (mem_with_past.mpr ⟨before, behind, same, rfl⟩)
      simpa [Stop.touches, found] using unused
    · rintro never ⟨past, ⟨place, act⟩⟩ member
      rcases mem_with_past.mp member with ⟨before, behind, same, rfl⟩
      cases act with
      | naming naming =>
          by_cases found : resolve past place naming.name = some ⟨scope, declared⟩
          · simpa [Stop.touches, found] using never past place naming behind same found
          · simp [Stop.touches, found]
      | enter => simp [Stop.touches]
      | leave => simp [Stop.touches]
      | finish => simp [Stop.touches]
  unfold unusedIn
  rw [List.mem_filter, Bool.and_eq_true, Bool.not_eq_true', Bool.not_eq_true', untouched]

theorem accepted_in_nodup (stops : Stops) (scope : Address) :
    ((acceptedIn stops scope).map Declared.name).Nodup := by
  induction stops using List.reverseRecOn with
  | nil => simp [acceptedIn, withPast]
  | append_singleton stops stop induction =>
      rw [accepted_in_concat, List.map_append, List.nodup_append]
      apply And.intro induction
      cases accepted : stop.accepted? scope stops with
      | none => simp
      | some declared =>
          have free := (accepted?_eq_some.mp accepted).2
          constructor
          · simp
          · intro name earlier other last same
            rcases List.mem_map.mp earlier with ⟨before, member, named⟩
            rw [mem_accepted_in, named, same] at member
            simp only [Option.toList_some, List.map_cons, List.map_nil, List.mem_singleton] at last
            rw [last, free] at member
            cases member

theorem with_past_map_snd (past stops : Stops) : (withPast past stops).map Prod.snd = stops := by
  induction stops generalizing past with
  | nil => rfl
  | cons stop stops induction => rw [withPast, List.map_cons, induction]

end Stops

/-- All findings about unused names come from the ends of scopes. -/
theorem Analysis.unused_findings (program : Program) :
    (ofProgram program).diagnostics.of .unused =
      program.closings.flatMap fun scope =>
        (Stops.unusedIn program.itinerary scope).map Declared.unusedFinding := by
  have each : ∀ pair ∈ Stops.withPast [] program.itinerary,
      pair.2.reports pair.1 .unused = pair.2.closed?.toList.flatMap fun scope =>
        (Stops.unusedIn program.itinerary scope).map Declared.unusedFinding := by
    intro ⟨past, ⟨scope, act⟩⟩ member
    rcases Stops.mem_with_past.mp member with ⟨before, behind, parts, rfl⟩
    cases act with
    | leave => simp [Stop.reports, Stop.unused, Stop.closed?, Stops.unused_in_of_closed parts rfl]
    | finish => simp [Stop.reports, Stop.unused, Stop.closed?, Stops.unused_in_of_closed parts rfl]
    | naming naming => rfl
    | enter => rfl
  calc (ofProgram program).diagnostics.of .unused
      = (Stops.withPast [] program.itinerary).flatMap (fun pair => pair.2.reports pair.1 .unused) :=
        findings_eq program .unused
    _ = (Stops.withPast [] program.itinerary).flatMap (fun pair =>
          pair.2.closed?.toList.flatMap fun scope =>
            (Stops.unusedIn program.itinerary scope).map Declared.unusedFinding) :=
        List.flatMap_congr each
    _ = ((Stops.withPast [] program.itinerary).map Prod.snd).flatMap (fun stop =>
          stop.closed?.toList.flatMap fun scope =>
            (Stops.unusedIn program.itinerary scope).map Declared.unusedFinding) := by
        rw [List.flatMap_map]
    _ = _ := by
        rw [Stops.with_past_map_snd, Program.closings, List.filterMap_eq_flatMap_toList,
          List.flatMap_assoc]

namespace Walk

/-- The end of a scope reports what nothing in the program uses, and only that. -/
theorem events_leave_scope {program : Program} {before behind : Stops} {scope : Address}
    {types : List (Option ScalarType)} {s : WalkState}
    (parts : program.itinerary = before ++ ⟨scope, .leave⟩ :: behind)
    (reaches : Stops.Reaches before types .start s) :
    (leaveScope.after s).events =
      s.events ++ .left scope.length (Stops.acceptedIn program.itinerary scope).length ::
        (Stops.unusedIn program.itinerary scope).map fun declared =>
          .reported declared.unusedFinding := by
  rw [Stops.unused_in_of_closed parts rfl]
  have held : Stops.acceptedIn program.itinerary scope = Stops.acceptedIn before scope := by
    rw [parts]
    exact Stops.accepted_in_append_of_away (Stops.away_of_closed parts rfl)
  rcases reaches.arrived parts with ⟨between, next, stands, move⟩
  cases move with
  | leave _ index =>
      rcases stands.leave with ⟨rest, inner, _⟩
      have depth : s.table.depth = (index :: next).length := by
        have count := congrArg List.length (show s.table.scopes = _ from stands)
        simpa [SymbolTable.scopes, SymbolTable.depth] using count
      rw [after_leave_scope inner, Stops.unused_findings_scope_now, held, depth]
      simp [WalkState.events, Stops.scopeNow]

theorem events_finish {program : Program} {before behind : Stops} {types : List (Option ScalarType)}
    {s : WalkState} (parts : program.itinerary = before ++ ⟨[], .finish⟩ :: behind)
    (reaches : Stops.Reaches before types .start s) :
    ((reportUnused s.table.global).after s).events =
      s.events ++ (Stops.unusedIn program.itinerary []).map fun declared =>
        .reported declared.unusedFinding := by
  rw [Stops.unused_in_of_closed parts rfl]
  rcases reaches.arrived parts with ⟨between, next, stands, move⟩
  cases move
  rw [after_report_unused, stands.finish.1, Stops.unused_findings_scope_now]
  simp [WalkState.events]

/-- Every unused declaration is reported once, at the end of its scope and behind all that
happens there; no other declaration is. Unused is what no use in the whole program stands for;
a declaration that was refused is not among the names of its scope. -/
theorem unused_names_are_reported_once (program : Program) :
    (∀ scope declared, declared ∈ Stops.unusedIn program.itinerary scope ↔
      declared ∈ Stops.acceptedIn program.itinerary scope ∧ declared.isProgram = false ∧
        ∀ before place naming behind,
          program.itinerary = before ++ ⟨place, .naming naming⟩ :: behind →
            Stops.resolve before place naming.name = some ⟨scope, declared⟩ →
              naming.uses declared.meaning = false) ∧
    (∀ scope, (Stops.unusedIn program.itinerary scope).Sublist
        (Stops.acceptedIn program.itinerary scope) ∧
      ((Stops.acceptedIn program.itinerary scope).map Declared.name).Nodup) ∧
    (program.closings.Nodup ∧ ∀ stop ∈ program.itinerary, stop.scope ∈ program.closings) ∧
    (Analysis.ofProgram program).diagnostics.of .unused =
      program.closings.flatMap (fun scope =>
        (Stops.unusedIn program.itinerary scope).map Declared.unusedFinding) ∧
    (∀ before scope behind, program.itinerary = before ++ ⟨scope, .leave⟩ :: behind →
      (∀ stop ∈ behind, ¬scope <:+ stop.scope) ∧
        ∃ s types more, Stops.Reaches before types .start s ∧
          Stops.Reaches behind more (leaveScope.after s) ((Walk.program program).after .start) ∧
          (leaveScope.after s).events =
            s.events ++ .left scope.length (Stops.acceptedIn program.itinerary scope).length ::
              (Stops.unusedIn program.itinerary scope).map fun declared =>
                .reported declared.unusedFinding) ∧
    ∃ before s types, program.itinerary = before ++ [⟨[], .finish⟩] ∧
      Stops.Reaches before types .start s ∧
      (Analysis.ofProgram program).events =
        s.events ++ (Stops.unusedIn program.itinerary []).map fun declared =>
          .reported declared.unusedFinding := by
  apply And.intro fun scope declared => Stops.mem_unused_in
  apply And.intro fun scope => ⟨List.filter_sublist, Stops.accepted_in_nodup _ scope⟩
  apply And.intro ⟨program.closings_nodup, fun stop => Program.mem_closings⟩
  apply And.intro (Analysis.unused_findings program)
  constructor
  · intro before scope behind parts
    have apart := program.itinerary_apart
    rw [parts] at apart
    have further := (List.pairwise_cons.mp (List.pairwise_append.mp apart).2.1).1
    rcases Stops.reaches_stop parts with ⟨s, _, types, more, reaches, rest⟩
    exact ⟨fun stop member => (further stop member).closed rfl, s, types, more, reaches, rest,
      events_leave_scope parts reaches⟩
  · rcases reaches_end program .start with ⟨stops, s, parts, reaches, final⟩
    have events := events_finish parts reaches
    rw [← final] at events
    exact ⟨stops, s, _, parts, reaches, events⟩

/-- A variable that only a procedure uses is used, and its second declaration was refused. The
parameter is reported at the end of the procedure, the procedure at the end of the program. -/
theorem unused_parameter_is_reported_first :
    ∃ (program : Program) (before behind : Stops) (s : WalkState),
      program.itinerary = before ++ ⟨[0], .leave⟩ :: behind ∧ program.closings = [[0], []] ∧
        (leaveScope.after s).events =
          s.events ++ [.left 1 1, .reported
            (finding ⟨.ident, "a", ⟨1, 43, 42⟩⟩ (.unusedVariable "a"))] ∧
        ((Analysis.ofProgram program).diagnostics.of .unused).messages =
          ["Variable 'a' was never used.", "Procedure 'q' was never called."] := by
  let program := (Parse.ofText ("program p; var x, x: integer; procedure q(a: real); " ++
    "begin x := 1 end; begin end.")).program
  have parts : program.itinerary = program.itinerary.take 8 ++
      ⟨[0], .leave⟩ :: program.itinerary.drop 9 := by decide +kernel
  have names : (Stops.acceptedIn program.itinerary [0]).length = 1 := by decide +kernel
  have unused : (Stops.unusedIn program.itinerary [0]).map Declared.unusedFinding =
      [finding ⟨.ident, "a", ⟨1, 43, 42⟩⟩ (.unusedVariable "a")] := by decide +kernel
  rcases unused_names_are_reported_once program with ⟨_, _, _, findings, leaves, _⟩
  rcases leaves _ _ _ parts with ⟨_, s, _, _, _, _, events⟩
  have closings : program.closings = [[0], []] := by decide +kernel
  have reported : ((Analysis.ofProgram program).diagnostics.of .unused).messages =
      ["Variable 'a' was never used.", "Procedure 'q' was never called."] := by
    rw [findings]
    decide +kernel
  have each := congrArg (List.map WalkEvent.reported) unused
  rw [List.map_map] at each
  rw [names] at events
  exact ⟨program, _, _, s, parts, closings, events.trans (by rw [← Function.comp_def, each]; rfl),
    reported⟩

end Walk

end TinyPascal
