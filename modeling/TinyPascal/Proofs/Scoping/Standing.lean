import TinyPascal.Proofs.Scoping.Effects
import TinyPascal.Proofs.Scoping.Placement

/-!
# The table on the way

The table always holds what the itinerary says: its scopes are those around the place that was
reached, and each of them holds the declarations taken up so far, with the marks they have got.
One stop keeps this, so a whole walk does. With it goes what is reported about names.
-/

namespace TinyPascal

set_option autoImplicit false

def Declared.unusedFinding (declared : Declared) : Diagnostic :=
  Walk.finding declared.token
    (match declared with
      | procedure token _ => .unusedProcedure token.lexeme
      | declared => .unusedVariable declared.name)

/-- The type of a name that stands for a variable. -/
def Binding.type? (binding : Binding) : Option ScalarType := binding.declared.entry.type?

namespace Stop

open Stops

def undeclared (past : Stops) (stop : Stop) : Diagnostics :=
  match stop.act with
  | .naming (.mention how token) =>
      if resolve past stop.scope token.lexeme = none then
        [Walk.finding token (how.undeclared token.lexeme)]
      else []
  | _ => []

def redeclared (past : Stops) (stop : Stop) : Diagnostics :=
  match stop.act with
  | .naming (.declare declared) =>
      if firstIn past stop.scope declared.name = none then []
      else (declared.clash?.map (Walk.finding declared.token)).toList
  | _ => []

def unused (past : Stops) (stop : Stop) : Diagnostics :=
  match stop.act with
  | .leave | .finish => (unusedIn past stop.scope).map Declared.unusedFinding
  | _ => []

def reports (past : Stops) (stop : Stop) : NamingKind → Diagnostics
  | .undeclared => stop.undeclared past
  | .redeclared => stop.redeclared past
  | .unused => stop.unused past

def callType (past : Stops) (stop : Stop) : List (Option ScalarType) :=
  match stop.act with
  | .naming (.mention (.operand resolved) token) =>
      [((resolve past stop.scope token.lexeme).bind Binding.type?).or resolved]
  | .naming (.mention how _) => how.resolved?.toList
  | _ => []

/-- All that is reported about names at a stop. -/
def remarks (past : Stops) (stop : Stop) : Diagnostics :=
  stop.reports past .undeclared ++ (stop.reports past .redeclared ++ stop.reports past .unused)

end Stop

namespace Stops

variable {past : Stops} {scope : Address} {table : SymbolTable}

/-- The table holds the scopes around `scope` as `past` has left them. -/
def Stands (past : Stops) (scope : Address) (table : SymbolTable) : Prop :=
  table.scopes = scope.tails.map (scopeNow past)

theorem stands_start : Stands [] [] SymbolTable.empty := rfl

theorem Stands.lookup (stands : Stands past scope table) (name : String) :
    table.lookup name = (resolve past scope name).map (now past) := by
  unfold SymbolTable.lookup
  rw [stands, find_some?_scopes_now]

theorem Stands.current (stands : Stands past scope table) :
    table.current = scopeNow past scope ∧
      table.scopes.tail = scope.tails.tail.map (scopeNow past) := by
  have both := table.scopes_eq_cons.symm.trans stands
  rw [tails_eq_cons, List.map_cons, List.cons.injEq] at both
  exact both

theorem Stands.contains (stands : Stands past scope table) (name : String) :
    table.current.contains name = (firstIn past scope name).isSome := by
  rw [stands.current.1, Scope.contains, get?_scope_now, Option.isSome_map]

theorem now_meaning (past : Stops) (binding : Binding) :
    (now past binding).meaning = binding.declared.meaning := rfl

theorem Stands.declare (stands : Stands past scope table) (declared : Declared) :
    Stands (past ++ [⟨scope, .naming (.declare declared)⟩]) scope
      (table.define declared.name declared.entry).2 := by
  unfold Stands
  rw [scopes_now_declare]
  cases first : firstIn past scope declared.name with
  | some earlier =>
      have taken : table.current.contains declared.name = true := by
        rw [stands.contains, first, Option.isSome_some]
      rw [SymbolTable.define_of_taken taken, stands]
      simp
  | none =>
      have free : table.current.contains declared.name = false := by
        rw [stands.contains, first, Option.isSome_none]
      rw [(SymbolTable.define_of_free free).2, stands.current.1, stands.current.2]
      simp

theorem Stands.touch (stands : Stands past scope table) {naming : Naming}
    (plain : ∀ declared, naming ≠ .declare declared) :
    Stands (past ++ [⟨scope, .naming naming⟩]) scope (naming.effect table) := by
  unfold Stands Naming.effect
  rw [scopes_now_touch plain, stands.lookup]
  cases resolve past scope naming.name with
  | none => exact stands
  | some binding =>
      simp only [Option.map_some, now_meaning]
      rw [SymbolTable.scopes_modify, stands]

theorem scope_now_of_unseen (unseen : ∀ stop ∈ past, stop.scope ≠ scope) :
    scopeNow past scope = [] := by
  have nothing : acceptedIn past scope = [] := by
    rw [List.eq_nil_iff_forall_not_mem]
    intro declared member
    rw [mem_accepted_in] at member
    rcases List.exists_of_findSome?_eq_some member with ⟨stop, among, declares⟩
    apply unseen stop among
    rw [(declares?_eq_some.mp declares).1]
  rw [scopeNow, nothing, List.map_nil]

/-- Only what happens to names changes what the scopes hold. -/
theorem Stands.quiet (stands : Stands past scope table) {act : Act}
    (quiet : ∀ naming, act ≠ .naming naming) (place : Address) :
    Stands (past ++ [⟨place, act⟩]) scope table := by
  unfold Stands
  rw [funext (scope_now_quiet quiet past place)]
  exact stands

theorem Stands.enter (stands : Stands past scope table) {index : Nat}
    (unseen : ∀ stop ∈ past, stop.scope ≠ index :: scope) :
    Stands (past ++ [⟨index :: scope, .enter⟩]) (index :: scope) table.push := by
  have opened : Stands past (index :: scope) table.push := by
    unfold Stands
    rw [SymbolTable.scopes_push, stands, List.tails, List.map_cons, scope_now_of_unseen unseen]
  exact opened.quiet (by simp) _

theorem Stands.leave {index : Nat} (stands : Stands past (index :: scope) table) :
    ∃ outer, table.inner = scopeNow past (index :: scope) :: outer ∧
      Stands (past ++ [⟨index :: scope, .leave⟩]) scope { table with inner := outer } := by
  have scopes : table.inner ++ [table.global] =
      scopeNow past (index :: scope) :: scope.tails.map (scopeNow past) := stands
  cases inner : table.inner with
  | nil =>
      rw [inner, tails_eq_cons, List.map_cons, List.nil_append, List.cons.injEq] at scopes
      cases scopes.2
  | cons innermost outer =>
      rw [inner, List.cons_append, List.cons.injEq] at scopes
      apply Exists.intro outer
      constructor
      · rw [scopes.1]
      · have rest : Stands past scope { table with inner := outer } := scopes.2
        exact rest.quiet (by simp) _

theorem Stands.finish (stands : Stands past [] table) :
    table.global = scopeNow past [] ∧ Stands (past ++ [⟨[], .finish⟩]) [] table := by
  have scopes : table.inner ++ [table.global] = [scopeNow past []] := stands
  rw [List.append_eq_singleton_iff] at scopes
  constructor
  · rcases scopes with ⟨_, global⟩ | ⟨_, absurd⟩
    · exact (List.cons.inj global).1
    · cases absurd
  · exact stands.quiet (by simp) _

end Stops

namespace Declared

theorem unused_finding_now (past : Stops) (scope : Address) (declared : Declared) :
    (Stops.now past ⟨scope, declared⟩).unusedFinding declared.name = declared.unusedFinding := by
  cases declared <;> rfl

theorem used_entry (declared : Declared) : declared.entry.used = declared.isProgram := by
  cases declared <;> rfl

end Declared

namespace Stops

variable {past : Stops} {scope scope' : Address} {stop : Stop} {s : WalkState}

theorem unused_findings_scope_now (past : Stops) (scope : Address) :
    Walk.unusedFindings (scopeNow past scope) =
      (unusedIn past scope).map Declared.unusedFinding := by
  unfold Walk.unusedFindings Scope.unused scopeNow unusedIn
  rw [List.filter_map, List.map_map, List.filter_congr]
  · apply List.map_congr_left
    intro declared _
    exact declared.unused_finding_now past scope
  · intro declared _
    simp [now, Declared.used_entry]

/-- What one stop does, where the table holds what the itinerary says. -/
structure Step (past : Stops) (stop : Stop) (scope' : Address) (expected : Option ScalarType)
    (s : WalkState) : Prop where
  stands : Stands (past ++ [stop]) scope' ((stop.act.walk expected).after s).table
  findings : ((stop.act.walk expected).after s).findings = s.findings ++ stop.remarks past
  types : (stop.act.walk expected).value s = stop.callType past

theorem Stands.step_declare (stands : Stands past scope s.table) (declared : Declared)
    (expected : Option ScalarType) :
    Step past ⟨scope, .naming (.declare declared)⟩ scope expected s where
  stands := by
    have after := stands.declare declared
    rwa [← (declared.leaves_walk s).table] at after
  findings := by
    have after := (declared.leaves_walk s).findings
    rw [stands.contains] at after
    apply after.trans
    cases first : firstIn past scope declared.name <;>
      simp [Stop.remarks, Stop.reports, Stop.undeclared, Stop.redeclared, Stop.unused, first]
  types := rfl

theorem Stands.step_mention (stands : Stands past scope s.table) (how : Mention) (token : Token)
    (expected : Option ScalarType) :
    Step past ⟨scope, .naming (.mention how token)⟩ scope expected s where
  stands := by
    have plain : ∀ declared, Naming.mention how token ≠ .declare declared := by simp
    have after := stands.touch plain
    rwa [← (Naming.leaves_mention how token expected s).table] at after
  findings := by
    have after := (Naming.leaves_mention how token expected s).findings
    rw [stands.lookup] at after
    apply after.trans
    cases found : resolve past scope token.lexeme <;>
      simp [Stop.remarks, Stop.reports, Stop.undeclared, Stop.redeclared, Stop.unused, found]
  types := by
    cases how with
    | operand resolved =>
        have type : (s.table.lookup token.lexeme).bind Entry.type? =
            (resolve past scope token.lexeme).bind Binding.type? := by
          rw [stands.lookup, Option.bind_map]
          rfl
        change [((Walk.checkName expected token).value s).or resolved] = _
        rw [Walk.value_check_name, type]
        rfl
    | target op => rfl
    | control op => rfl
    | callee supplied resolved => rfl
    | applied supplied resolved => rfl

theorem Stands.step_assigned (stands : Stands past scope s.table) (token : Token)
    (expected : Option ScalarType) :
    Step past ⟨scope, .naming (.assigned token)⟩ scope expected s where
  stands := by
    have plain : ∀ declared, Naming.assigned token ≠ .declare declared := by simp
    have after := stands.touch plain
    rwa [← (Naming.leaves_assign token s).table] at after
  findings := (Naming.leaves_assign token s).findings
  types := rfl

theorem Stands.step (stands : Stands past scope s.table) (move : stop.Moves scope scope')
    (unseen : stop.act = .enter → ∀ earlier ∈ past, earlier.scope ≠ stop.scope)
    (expected : Option ScalarType) : Step past stop scope' expected s := by
  cases move with
  | naming _ naming =>
      cases naming with
      | declare declared => exact stands.step_declare declared expected
      | mention how token => exact stands.step_mention how token expected
      | assigned token => exact stands.step_assigned token expected
  | enter _ index =>
      have leaves := Walk.leaves_enter_scope s
      constructor
      · have after := stands.enter (unseen rfl)
        rwa [← leaves.table] at after
      · exact leaves.findings
      · rfl
  | leave _ index =>
      rcases stands.leave with ⟨outer, inner, rest⟩
      have leaves := Walk.leaves_leave_scope inner
      constructor
      · rwa [← leaves.table] at rest
      · rw [unused_findings_scope_now] at leaves
        exact leaves.findings
      · rfl
  | finish =>
      have leaves := Walk.leaves_report_unused s.table.global s
      constructor
      · have after := stands.finish.2
        rwa [← leaves.table] at after
      · have findings := leaves.findings
        rw [congrArg Walk.unusedFindings stands.finish.1, unused_findings_scope_now] at findings
        exact findings
      · rfl

/-- What a walk past `stops` does, where the table holds what the itinerary says. -/
structure Run (past stops : Stops) (scope' : Address) (types : List (Option ScalarType))
    (s s' : WalkState) : Prop where
  stands : Stands (past ++ stops) scope' s'.table
  findings : s'.findings =
    s.findings ++ (withPast past stops).flatMap fun (past, stop) => stop.remarks past
  types : types = (withPast past stops).flatMap fun (past, stop) => stop.callType past

theorem Reaches.run {stops : Stops} {types : List (Option ScalarType)} {s' : WalkState}
    (reaches : Reaches stops types s s') (stands : Stands past scope s.table)
    (leads : Leads scope stops scope') (apart : (past ++ stops).Pairwise Stop.Apart) :
    Run past stops scope' types s s' := by
  -- the induction is on the way that is left; what lies behind grows by one stop at a time
  induction reaches generalizing past scope with
  | here s =>
      cases leads
      exact ⟨by rwa [List.append_nil], by simp [withPast], rfl⟩
  | idle typing rest induction =>
      rw [← typing.table] at stands
      have run := induction stands leads apart
      exact ⟨run.stands, by rw [run.findings, typing.findings], run.types⟩
  | @stop expected first others types s s' rest induction =>
      cases leads with
      | cons move further =>
          have unseen : first.act = .enter → ∀ earlier ∈ past, earlier.scope ≠ first.scope := by
            intro enters earlier member
            exact ((List.pairwise_append.mp apart).2.2 earlier member first
              List.mem_cons_self).fresh enters
          have step := stands.step move unseen expected
          rw [List.append_cons] at apart
          have run := induction step.stands further apart
          constructor
          · rw [List.append_cons]
            exact run.stands
          · rw [run.findings, step.findings, List.append_assoc]
            rfl
          · rw [step.types, run.types]
            rfl

/-- What holds at the outset is kept between the stops and passes every stop, holds at the end. -/
theorem Reaches.invariant {holds : Stops → WalkState → Prop} {stops : Stops}
    {types : List (Option ScalarType)} {s' : WalkState} (reaches : Reaches stops types s s')
    (idle : ∀ {past s s'}, holds past s → s.Idles s' → holds past s')
    (pass : ∀ {past scope scope' stop s} expected, holds past s → Stands past scope s.table →
      stop.Moves scope scope' → holds (past ++ [stop]) ((stop.act.walk expected).after s))
    (outset : holds past s) (stands : Stands past scope s.table) (leads : Leads scope stops scope')
    (apart : (past ++ stops).Pairwise Stop.Apart) : holds (past ++ stops) s' := by
  induction reaches generalizing past scope with
  | here s => rwa [List.append_nil]
  | idle typing rest induction =>
      rw [← typing.table] at stands
      exact induction (idle outset typing) stands leads apart
  | @stop expected first others types s s' rest induction =>
      cases leads with
      | cons move further =>
          have unseen : first.act = .enter → ∀ earlier ∈ past, earlier.scope ≠ first.scope := by
            intro enters earlier member
            exact ((List.pairwise_append.mp apart).2.2 earlier member first
              List.mem_cons_self).fresh enters
          have step := stands.step move unseen expected
          rw [List.append_cons] at apart ⊢
          exact induction (pass expected outset stands move) step.stands further apart

end Stops

end TinyPascal
