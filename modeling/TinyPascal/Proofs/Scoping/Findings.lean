import TinyPascal.Proofs.Scoping.Standing

/-!
# What is reported about names

Three kinds of findings are about names: those that are not declared, those that are declared
twice, and those that are never used. The itinerary lists the findings of each kind.
-/

namespace TinyPascal

set_option autoImplicit false

namespace Stops

theorem run_program (program : Program) :
    Run [] program.itinerary [] (Analysis.ofProgram program).program.callTypes .start
      ((Walk.program program).after .start) :=
  (Walk.reaches_program program .start).run stands_start program.itinerary_leads
    program.itinerary_apart

theorem reaches_stop {program : Program} {before behind : Stops} {stop : Stop}
    (parts : program.itinerary = before ++ stop :: behind) :
    ∃ s expected types more, Reaches before types .start s ∧
      Reaches behind more ((stop.act.walk expected).after s)
        ((Walk.program program).after .start) := by
  have whole := Walk.reaches_program program .start
  rw [parts] at whole
  rcases whole.split_stop with ⟨types, more, s, expected, first, rest, _⟩
  exact ⟨s, expected, types, more, first, rest⟩

/-- Where the walk gets to a stop, the table holds what the stops before it say. -/
theorem Reaches.arrived {program : Program} {before behind : Stops} {stop : Stop}
    {types : List (Option ScalarType)} {s : WalkState} (reaches : Reaches before types .start s)
    (parts : program.itinerary = before ++ stop :: behind) :
    ∃ between next, Stands before between s.table ∧ stop.Moves between next := by
  have leads := program.itinerary_leads
  have apart := program.itinerary_apart
  rw [parts] at leads apart
  rcases leads.split with ⟨between, next, front, move, _⟩
  have run := reaches.run stands_start front (List.pairwise_append.mp apart).1
  exact ⟨between, next, run.stands, move⟩

end Stops

theorem Diagnostic.naming_of_kind (diagnostic : Diagnostic) (kind : NamingKind) :
    (diagnostic.concerns (SemanticProblem.isOf kind) &&
      diagnostic.concerns SemanticProblem.isNaming) =
        diagnostic.concerns (SemanticProblem.isOf kind) := by
  unfold Diagnostic.concerns
  split
  · next problem _ =>
    unfold SemanticProblem.isOf SemanticProblem.isNaming
    cases problem.namingKind? <;> simp
  · rfl

theorem Mention.kind_undeclared (how : Mention) (name : String) :
    (how.undeclared name).namingKind? = some .undeclared := by
  cases how <;> rfl

theorem Declared.kind_clash {declared : Declared} {problem : SemanticProblem}
    (clash : declared.clash? = some problem) : problem.namingKind? = some .redeclared := by
  cases declared <;> cases clash <;> rfl

theorem Declared.kind_unused_finding (declared : Declared) :
    ∃ problem, declared.unusedFinding = Walk.finding declared.token problem ∧
      problem.namingKind? = some .unused := by
  cases declared <;> exact ⟨_, rfl, rfl⟩

namespace Stop

theorem kind_reports {past : Stops} {stop : Stop} {kind : NamingKind} {diagnostic : Diagnostic}
    (member : diagnostic ∈ stop.reports past kind) :
    ∃ token problem, diagnostic = Walk.finding token problem ∧ problem.namingKind? = some kind := by
  cases kind with
  | undeclared =>
      simp only [reports, undeclared] at member
      split at member
      · next how token _ =>
        split at member
        · exact ⟨token, _, List.mem_singleton.mp member, how.kind_undeclared _⟩
        · cases member
      · cases member
  | redeclared =>
      simp only [reports, redeclared] at member
      split at member
      · next declared _ =>
        split at member
        · cases member
        · rw [Option.mem_toList, Option.map_eq_some_iff] at member
          rcases member with ⟨problem, clash, same⟩
          exact ⟨declared.token, problem, same.symm, Declared.kind_clash clash⟩
      · cases member
  | unused =>
      have found : diagnostic ∈ (Stops.unusedIn past stop.scope).map Declared.unusedFinding := by
        simp only [reports, unused] at member
        split at member
        · exact member
        · exact member
        · cases member
      rcases List.mem_map.mp found with ⟨declared, _, same⟩
      rcases declared.kind_unused_finding with ⟨problem, about, known⟩
      exact ⟨declared.token, problem, same.symm.trans about, known⟩

theorem filter_reports (past : Stops) (stop : Stop) (kind other : NamingKind) :
    (stop.reports past other).filter (Diagnostic.concerns (SemanticProblem.isOf kind)) =
      if other = kind then stop.reports past other else [] := by
  by_cases same : other = kind
  · rw [if_pos same, List.filter_eq_self]
    intro diagnostic member
    rcases kind_reports member with ⟨token, problem, rfl, known⟩
    exact decide_eq_true (same ▸ known)
  · rw [if_neg same, List.filter_eq_nil_iff]
    intro diagnostic member concerns
    rcases kind_reports member with ⟨token, problem, rfl, known⟩
    exact same (Option.some.inj (known.symm.trans (of_decide_eq_true concerns)))

theorem filter_remarks (past : Stops) (stop : Stop) (kind : NamingKind) :
    (stop.remarks past).filter (Diagnostic.concerns (SemanticProblem.isOf kind)) =
      stop.reports past kind := by
  rw [remarks, List.filter_append, List.filter_append, filter_reports, filter_reports,
    filter_reports]
  cases kind <;> simp

end Stop

def Diagnostics.of (kind : NamingKind) (found : Diagnostics) : Diagnostics :=
  found.filter (Diagnostic.concerns (SemanticProblem.isOf kind))

/-- The findings of each kind are listed by the itinerary. -/
theorem Analysis.findings_eq (program : Program) (kind : NamingKind) :
    (ofProgram program).diagnostics.of kind =
      (Stops.withPast [] program.itinerary).flatMap fun (past, stop) => stop.reports past kind := by
  have findings := congrArg (List.filter (Diagnostic.concerns (SemanticProblem.isOf kind)))
    (Stops.run_program program).findings
  rw [WalkState.findings, List.filter_filter] at findings
  simp only [Diagnostic.naming_of_kind] at findings
  rw [List.filter_append, List.filter_flatMap] at findings
  simp only [Stop.filter_remarks] at findings
  exact findings

end TinyPascal
