import TinyPascal.Proofs.Scoping.Effects
import TinyPascal.Proofs.Walk.Contents

/-!
# Where the checker points

The checker reports at tokens of the tree that it walks over, and reports nothing but errors. What
is reported later than the walk comes by it, an unused name, is reported at the token that the
scope holds for it.
-/

namespace TinyPascal

set_option autoImplicit false

/-- The event is no diagnostic, or one of the checker about a token that `spot` holds of. -/
def WalkEvent.PointsTo (spot : Token → Prop) (event : WalkEvent) : Prop :=
  ∀ diagnostic, event.diagnostic? = some diagnostic →
    ∃ token problem, spot token ∧ diagnostic = Walk.finding token problem

/-- Whatever is unused in the scope was declared at a token that `spot` holds of. -/
def Scope.PointsTo (spot : Token → Prop) (scope : Scope) : Prop :=
  ∀ pair ∈ scope, pair.2.used = false → spot pair.2.token

/-- All that has been reported, or is still to be reported as unused, is about tokens that `spot`
holds of. -/
structure WalkState.PointsTo (spot : Token → Prop) (s : WalkState) : Prop where
  scopes : ∀ scope ∈ s.table.scopes, scope.PointsTo spot
  events : ∀ event ∈ s.trace, event.PointsTo spot

namespace Scope

variable {spot : Token → Prop} {change : Entry → Entry}

/-- Marking a name uses it, or leaves it unused where it was declared. -/
def Marks (change : Entry → Entry) : Prop :=
  ∀ entry, (change entry).used = false → entry.used = false ∧ (change entry).token = entry.token

theorem points_to_modify (marks : Marks change) (name : String) {scope : Scope}
    (points : scope.PointsTo spot) : (scope.modify change name).PointsTo spot := by
  intro pair member unused
  rcases List.mem_map.mp member with ⟨⟨key, entry⟩, old, same⟩
  rw [← same] at unused ⊢
  dsimp only at unused ⊢
  split at unused
  · rw [if_pos ‹key = name›]
    have kept := marks entry unused
    rw [kept.2]
    exact points _ old kept.1
  · rw [if_neg ‹¬key = name›]
    exact points _ old unused

theorem points_to_modify_first (marks : Marks change) (name : String) {scopes : List Scope}
    (points : ∀ scope ∈ scopes, scope.PointsTo spot) :
    ∀ scope ∈ modifyFirst change name scopes, scope.PointsTo spot := by
  induction scopes with
  | nil => exact points
  | cons scope outer induction =>
      rw [List.forall_mem_cons] at points
      rw [modifyFirst]
      split
      · exact List.forall_mem_cons.mpr ⟨points_to_modify marks name points.1, points.2⟩
      · exact List.forall_mem_cons.mpr ⟨points.1, induction points.2⟩

theorem points_to_push {scope : Scope} {name : String} {entry : Entry}
    (points : scope.PointsTo spot) (placed : entry.used = false → spot entry.token) :
    (scope.push name entry).PointsTo spot := by
  intro pair member
  rcases List.mem_append.mp member with old | new
  · exact points pair old
  · rw [List.mem_singleton.mp new]
    exact placed

end Scope

namespace WalkState

variable {spot : Token → Prop} {s : WalkState}

theorem PointsTo.noted (points : s.PointsTo spot) {event : WalkEvent}
    (placed : event.PointsTo spot) : PointsTo spot { s with trace := event :: s.trace } :=
  ⟨points.scopes, List.forall_mem_cons.mpr ⟨placed, points.events⟩⟩

theorem PointsTo.modified (points : s.PointsTo spot) {change : Entry → Entry}
    (marks : Scope.Marks change) (name : String) :
    PointsTo spot { s with table := s.table.modify name change } := by
  constructor
  · rw [SymbolTable.scopes_modify]
    exact Scope.points_to_modify_first marks name points.scopes
  · exact points.events

theorem PointsTo.defined (points : s.PointsTo spot) {name : String} {entry : Entry}
    (free : s.table.current.contains name = false)
    (placed : entry.used = false → spot entry.token) :
    PointsTo spot { s with table := (s.table.define name entry).2 } := by
  have scopes := points.scopes
  rw [SymbolTable.scopes_eq_cons, List.forall_mem_cons] at scopes
  constructor
  · rw [(SymbolTable.define_of_free free).2]
    exact List.forall_mem_cons.mpr ⟨Scope.points_to_push scopes.1 placed, scopes.2⟩
  · exact points.events

theorem points_to_finding {token : Token} (placed : spot token) (problem : SemanticProblem) :
    (WalkEvent.reported (Walk.finding token problem)).PointsTo spot := by
  intro diagnostic same
  exact ⟨token, problem, placed, (Option.some.inj same).symm⟩

theorem points_to_silent {event : WalkEvent} (silent : event.diagnostic? = none) :
    event.PointsTo spot := by
  intro diagnostic same
  rw [silent] at same
  cases same

theorem PointsTo.declared (points : s.PointsTo spot) {declared : Declared}
    (placed : spot declared.token) : (declared.walk.after s).PointsTo spot := by
  have token : declared.entry.token = declared.token := by cases declared <;> rfl
  cases taken : s.table.current.contains declared.name with
  | true =>
      rw [Declared.after_walk_of_taken taken]
      unfold Declared.clashEvents
      cases declared.clash? with
      | none => exact points
      | some problem => exact points.noted (points_to_finding placed problem)
  | false =>
      rw [Declared.after_walk_of_free taken]
      apply points.defined taken
      intro _
      rwa [token]

theorem PointsTo.reported_unused (points : s.PointsTo spot) {scope : Scope}
    (placed : scope.PointsTo spot) : ((Walk.reportUnused scope).after s).PointsTo spot := by
  rw [Walk.after_report_unused]
  constructor
  · exact points.scopes
  · intro event member
    rcases List.mem_append.mp member with new | old
    · rw [List.mem_reverse] at new
      rcases List.mem_map.mp new with ⟨diagnostic, listed, rfl⟩
      rcases List.mem_map.mp listed with ⟨pair, isUnused, rfl⟩
      rcases List.mem_filter.mp isUnused with ⟨held, unused⟩
      exact points_to_finding (placed pair held (by simpa using unused)) _
    · exact points.events event old

theorem PointsTo.left (points : s.PointsTo spot) : (Walk.leaveScope.after s).PointsTo spot := by
  cases opened : s.table.inner with
  | nil =>
      unfold Walk.leaveScope
      rw [Walk.after_bind, Walk.value_table, Walk.after_table, SymbolTable.pop, opened]
      exact points
  | cons scope outer =>
      have scopes := points.scopes
      rw [SymbolTable.scopes, opened, List.cons_append, List.forall_mem_cons] at scopes
      have closed : PointsTo spot ⟨{ s.table with inner := outer },
          .left s.table.depth scope.length :: s.trace⟩ :=
        ⟨scopes.2, List.forall_mem_cons.mpr ⟨points_to_silent rfl, points.events⟩⟩
      rw [Walk.after_leave_scope opened, ← Walk.after_report_unused scope ⟨_, _⟩]
      exact closed.reported_unused scopes.1

end WalkState

/-- A walk over tokens that `spot` holds of points to nothing else. -/
def Kinship.pointing (spot : Token → Prop) : Kinship where
  related _ s t := t = s ∧ s.PointsTo spot
  places := spot
  names _ := True
  meaning := by
    intro depth s t name states _
    rw [states.1]
  inCurrent := by
    intro depth s t name states _
    rw [states.1]
  arithmetic := by
    intro depth s t op type states
    rw [states.1]
    exact ⟨rfl, states.2.noted (WalkState.points_to_silent rfl)⟩
  report := by
    intro depth s t token problem states placed
    rw [states.1]
    exact ⟨rfl, states.2.noted (WalkState.points_to_finding placed problem)⟩
  markUsed := by
    intro depth s t name states _
    rw [states.1]
    apply And.intro rfl
    apply states.2.modified
    intro entry unused
    cases unused
  markInitialized := by
    intro depth s t name states _
    rw [states.1]
    apply And.intro rfl
    apply states.2.modified
    intro entry unused
    exact ⟨unused, rfl⟩
  declare := by
    intro depth s t declared states placed _
    rw [states.1]
    exact ⟨rfl, states.2.declared placed⟩
  enter := by
    intro depth s t states
    rw [states.1]
    apply And.intro rfl
    constructor
    · exact List.forall_mem_cons.mpr ⟨List.forall_mem_nil _, states.2.scopes⟩
    · exact List.forall_mem_cons.mpr ⟨WalkState.points_to_silent rfl, states.2.events⟩
  leave := by
    intro depth s t states
    rw [states.1]
    exact ⟨rfl, states.2.left⟩

namespace Analysis

open Walk

theorem points_to_start {spot : Token → Prop} (token : Token) :
    ((Declared.program token).walk.after .start).PointsTo spot := by
  have start : WalkState.start.PointsTo spot := by
    constructor
    · exact List.forall_mem_singleton.mpr (List.forall_mem_nil _)
    · exact List.forall_mem_nil _
  rw [Declared.after_walk_of_free rfl]
  apply start.defined rfl
  intro used
  cases used

/-- Everything an analysis reports is an error about a token of the tree, and none is about a
stand-in for a missing one. -/
theorem finding_of_reported {program : Program} {diagnostic : Diagnostic}
    (reported : diagnostic ∈ (ofProgram program).diagnostics) :
    ∃ token ∈ program.tokensBy Token.present, ∃ problem, diagnostic = finding token problem := by
  let k := Kinship.pointing fun token => token ∈ program.tokensBy Token.present
  have placed : ∀ token, token ∈ Variables.tokens? program.locals ∨
      token ∈ Program.tokensByAll Token.present program.procedures ∨
        token ∈ Command.tokensAll program.body → k.places token := by
    rcases program with ⟨keyword, name, params, locals, nested, opening, body⟩
    intro token member
    simp only [k, Kinship.pointing, Program.tokensBy, List.mem_append]
    tauto
  have agree : k.Agree 0 (globals program) (globals program) :=
    Kinship.agree_globals (fun token member => placed token (.inl member)) (fun _ _ => trivial)
      (fun token member => placed token (.inr (.inl member))) (fun _ _ => trivial)
      (fun token member => placed token (.inr (.inr member))) (fun _ _ => trivial)
  have points := (agree _ _ ⟨rfl, points_to_start program.name⟩).2.2
  have last := points.reported_unused (points.scopes _ (List.mem_append_right _ List.mem_cons_self))
  rcases List.mem_filterMap.mp reported with ⟨event, happened, reports⟩
  rcases last.events event (List.mem_reverse.mp happened) diagnostic reports with
    ⟨token, problem, spot, same⟩
  exact ⟨token, spot, problem, same⟩

end Analysis

end TinyPascal
