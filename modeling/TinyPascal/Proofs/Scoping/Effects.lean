import TinyPascal.Proofs.Scoping.Checks
import TinyPascal.Proofs.Scoping.Held

/-!
# What a stop does to the table

Every stop of the itinerary changes the table in one way, and reports something about names only
if the table says so.
-/

namespace TinyPascal

set_option autoImplicit false

namespace Naming

open Walk

variable {naming : Naming} {meaning : Meaning}

theorem marked_idle (unused : naming.uses meaning = false)
    (unassigned : naming.assigns meaning = false) : naming.marked meaning = id := by
  funext entry
  simp [marked, unused, unassigned]

theorem marked_used (used : naming.uses meaning = true)
    (unassigned : naming.assigns meaning = false) :
    naming.marked meaning = fun entry => { entry with used := true } := by
  funext entry
  simp [marked, used, unassigned]

def effect (naming : Naming) (table : SymbolTable) : SymbolTable :=
  match table.lookup naming.name with
  | some entry => table.modify naming.name (naming.marked entry.meaning)
  | none => table

theorem effect_of_none {table : SymbolTable} (absent : table.lookup naming.name = none) :
    naming.effect table = table := by
  unfold effect
  rw [absent]

theorem effect_of_idle {table : SymbolTable} {entry : Entry}
    (found : table.lookup naming.name = some entry) (unused : naming.uses entry.meaning = false)
    (unassigned : naming.assigns entry.meaning = false) : naming.effect table = table := by
  unfold effect
  rw [found]
  simp only [marked_idle unused unassigned, SymbolTable.modify_id]

theorem effect_of_used {table : SymbolTable} {entry : Entry}
    (found : table.lookup naming.name = some entry) (used : naming.uses entry.meaning = true)
    (unassigned : naming.assigns entry.meaning = false) :
    naming.effect table = table.markUsed naming.name := by
  unfold effect SymbolTable.markUsed
  rw [found]
  simp only [marked_used used unassigned]

theorem effect_idle (unused : ∀ meaning, naming.uses meaning = false)
    (unassigned : ∀ meaning, naming.assigns meaning = false) (table : SymbolTable) :
    naming.effect table = table := by
  cases found : table.lookup naming.name with
  | none => exact effect_of_none found
  | some entry => exact effect_of_idle found (unused _) (unassigned _)

theorem effect_used (used : ∀ meaning, naming.uses meaning = true)
    (unassigned : ∀ meaning, naming.assigns meaning = false) (table : SymbolTable) :
    naming.effect table = table.markUsed naming.name := by
  cases found : table.lookup naming.name with
  | none =>
      rw [effect_of_none found, SymbolTable.markUsed, SymbolTable.modify_of_lookup_none _ found]
  | some entry => exact effect_of_used found (used _) (unassigned _)

theorem effect_callee (token : Token) (supplied : Nat) (resolved : Option ScalarType)
    (table : SymbolTable) :
    (mention (.callee supplied resolved) token).effect table =
      if ((table.lookup token.lexeme).bind Entry.params?).isSome then table.markUsed token.lexeme
      else table := by
  cases found : table.lookup token.lexeme with
  | none => exact effect_of_none found
  | some entry =>
      rcases entry with ⟨place, meaning, initialized, used⟩
      cases meaning with
      | procedureOn params => exact effect_of_used found rfl rfl
      | variableOf type => exact effect_of_idle found rfl rfl
      | programName => exact effect_of_idle found rfl rfl

theorem effect_assigned (token : Token) (table : SymbolTable) :
    (assigned token).effect table =
      if ((table.lookup token.lexeme).bind Entry.type?).isSome then
        (table.markInitialized token.lexeme).markUsed token.lexeme
      else table := by
  cases found : table.lookup token.lexeme with
  | none => exact effect_of_none found
  | some entry =>
      rcases entry with ⟨place, meaning, initialized, used⟩
      cases meaning with
      | variableOf type =>
          have both : (assigned token).marked (.variableOf type) =
              (fun entry => { entry with used := true }) ∘
                fun entry => { entry with initialized := true } := by
            funext entry
            simp [marked, uses, assigns]
          unfold effect SymbolTable.markUsed SymbolTable.markInitialized
          rw [SymbolTable.modify_modify, ← both]
          change (match table.lookup token.lexeme with
            | some entry => _
            | none => _) = _
          rw [found]
          rfl
      | procedureOn params => exact effect_of_idle found rfl rfl
      | programName => exact effect_of_idle found rfl rfl

theorem leaves_mention (how : Mention) (token : Token) (expected : Option ScalarType)
    (s : WalkState) :
    Leaves (how.walk expected token) s ((mention how token).effect s.table)
      (if s.table.lookup token.lexeme = none then
        [finding token (how.undeclared token.lexeme)] else []) := by
  cases how with
  | target op =>
      rw [effect_idle (fun _ => rfl) (fun _ => rfl)]
      exact (leaves_check_target op token s).quiet fun _ => quiet_pure _
  | control op =>
      rw [effect_idle (fun _ => rfl) (fun _ => rfl)]
      exact (leaves_check_control op token s).quiet fun _ => quiet_pure _
  | operand resolved =>
      rw [effect_used (fun _ => rfl) (fun _ => rfl)]
      exact (leaves_check_name expected token s).quiet fun _ => quiet_pure _
  | applied supplied resolved =>
      rw [effect_used (fun _ => rfl) (fun _ => rfl)]
      exact (leaves_check_callee token supplied s).quiet fun _ => quiet_pure _
  | callee supplied resolved =>
      rw [effect_callee]
      exact (leaves_check_call token supplied s).quiet fun _ => quiet_pure _

theorem leaves_assign (token : Token) (s : WalkState) :
    Leaves (assign token) s ((assigned token).effect s.table) [] := by
  rw [effect_assigned]
  unfold assign
  apply leaves_lookup_bind
  split
  · exact ⟨rfl, (List.append_nil _).symm⟩
  · exact quiet_pure _ s

end Naming

namespace Declared

open Walk

theorem leaves_define (token : Token) (entry : Entry) {taken : SemanticProblem}
    (naming : taken.isNaming = true) (s : WalkState) :
    Leaves (define token entry taken) s (s.table.define token.lexeme entry).2
      (if s.table.current.contains token.lexeme then [finding token taken] else []) := by
  unfold define
  apply leaves_table_bind
  cases used : s.table.current.contains token.lexeme with
  | true =>
      rw [SymbolTable.define_of_taken used]
      have report := leaves_report (s := s) token taken
      rw [naming] at report
      exact ⟨report.table, report.findings⟩
  | false =>
      have fresh : (s.table.define token.lexeme entry).1 = true :=
        (SymbolTable.define_of_free used).1
      generalize s.table.define token.lexeme entry = result at fresh ⊢
      rcases result with ⟨free, table⟩
      cases fresh
      exact ⟨rfl, (List.append_nil _).symm⟩

/-- A declaration is taken up by the innermost scope, or reported if the name is taken there. -/
theorem leaves_walk (declared : Declared) (s : WalkState) :
    Leaves declared.walk s (s.table.define declared.name declared.entry).2
      (if s.table.current.contains declared.name then
        (declared.clash?.map (finding declared.token)).toList else []) := by
  cases declared with
  | program token =>
      constructor
      · rfl
      · simp only [clash?, Option.map_none, Option.toList_none, ite_self, List.append_nil]
        rfl
  | procedure token params => exact leaves_define token _ rfl s
  | param token type => exact leaves_define token _ rfl s
  | var token type => exact leaves_define token _ rfl s

end Declared

def Entry.unusedFinding (name : String) (entry : Entry) : Diagnostic :=
  Walk.finding entry.token
    (if entry.isProcedure then .unusedProcedure name else .unusedVariable name)

theorem Entry.naming_unused_finding (name : String) (entry : Entry) :
    (entry.unusedFinding name).concerns SemanticProblem.isNaming = true := by
  unfold Entry.unusedFinding
  cases entry.isProcedure <;> rfl

namespace Walk

def unusedFindings (scope : Scope) : Diagnostics :=
  scope.unused.map fun (name, entry) => entry.unusedFinding name

theorem after_report_unused (scope : Scope) (s : WalkState) :
    (reportUnused scope).after s =
      { s with trace := ((unusedFindings scope).map .reported).reverse ++ s.trace } := by
  unfold reportUnused unusedFindings
  generalize scope.unused = unused
  induction unused generalizing s with
  | nil => rfl
  | cons pair unused induction =>
      rw [List.forM, after_bind, induction, List.map_cons, List.map_cons, List.reverse_cons,
        List.append_assoc]
      rfl

/-- The end of a scope takes it from the table and reports what was unused in it. -/
theorem after_leave_scope {s : WalkState} {scope : Scope} {outer : List Scope}
    (opened : s.table.inner = scope :: outer) :
    leaveScope.after s =
      ⟨{ s.table with inner := outer },
        ((unusedFindings scope).map .reported).reverse ++
          .left s.table.depth scope.length :: s.trace⟩ := by
  unfold leaveScope
  rw [after_bind, value_table, after_table, SymbolTable.pop, opened]
  exact after_report_unused scope _

theorem naming_unused_findings (scope : Scope) :
    (unusedFindings scope).filter (Diagnostic.concerns SemanticProblem.isNaming) =
      unusedFindings scope := by
  rw [List.filter_eq_self]
  intro diagnostic member
  rcases List.mem_map.mp member with ⟨⟨name, entry⟩, _, same⟩
  rw [← same]
  exact Entry.naming_unused_finding name entry

theorem leaves_report_unused (scope : Scope) (s : WalkState) :
    Leaves (reportUnused scope) s s.table (unusedFindings scope) := by
  have trace := congrArg WalkState.trace (after_report_unused scope s)
  have reported : ((unusedFindings scope).map WalkEvent.reported).filterMap WalkEvent.diagnostic? =
      unusedFindings scope := by
    simp [List.filterMap_map, Function.comp_def, WalkEvent.diagnostic?]
  constructor
  · rw [after_report_unused]
  · rw [WalkState.findings_append trace, List.reverse_reverse, reported, naming_unused_findings]

theorem leaves_set_table (table : SymbolTable) (s : WalkState) :
    Leaves (setTable table) s table [] :=
  ⟨rfl, (List.append_nil _).symm⟩

theorem quiet_note {event : WalkEvent} (silent : event.diagnostic? = none) :
    Quiet (note event) := by
  intro s
  have trace : ((note event).after s).trace = [event] ++ s.trace := rfl
  constructor
  · rfl
  · rw [WalkState.findings_append trace]
    simp [silent]

theorem leaves_leave_scope {s : WalkState} {scope : Scope} {outer : List Scope}
    (opened : s.table.inner = scope :: outer) :
    Leaves leaveScope s { s.table with inner := outer } (unusedFindings scope) := by
  unfold leaveScope
  apply leaves_table_bind
  rw [SymbolTable.pop, opened]
  exact (leaves_set_table _ s).bind
    ((quiet_note rfl _).bind (leaves_report_unused scope _))

theorem leaves_enter_scope (s : WalkState) : Leaves enterScope s s.table.push [] := by
  unfold enterScope
  apply leaves_table_bind
  exact (leaves_set_table _ s).quiet fun _ => quiet_note rfl

end Walk

end TinyPascal
