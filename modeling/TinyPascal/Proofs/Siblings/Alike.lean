import Mathlib.Data.List.Forall2
import Mathlib.Data.List.Perm.Basic
import TinyPascal.Proofs.Scoping.Effects
import TinyPascal.Proofs.Walk.Contents

/-!
# Tables that differ in order only

In which order a scope lists its names decides nothing but the order in which the unused ones are
reported. So walks over the same tree that start with alike tables end with alike tables, and
report the same in some order.
-/

namespace TinyPascal

set_option autoImplicit false

/-- The scopes hold the same names, and find the same entry for each. -/
structure Scope.Alike (first second : Scope) : Prop where
  names : second.Perm first
  found : ∀ name, second.get? name = first.get? name

namespace Scope.Alike

variable {first second third : Scope}

theorem refl (scope : Scope) : scope.Alike scope := ⟨.refl _, fun _ => rfl⟩

theorem trans (alike : first.Alike second) (further : second.Alike third) : first.Alike third :=
  ⟨further.names.trans alike.names, fun name => (further.found name).trans (alike.found name)⟩

theorem contains (alike : first.Alike second) (name : String) :
    second.contains name = first.contains name := by
  rw [Scope.contains, Scope.contains, alike.found]

theorem modify (alike : first.Alike second) (change : Entry → Entry) (name : String) :
    (first.modify change name).Alike (second.modify change name) := by
  constructor
  · exact alike.names.map _
  · intro other
    rw [get?_modify, get?_modify, alike.found]

theorem get?_push (scope : Scope) (name : String) (entry : Entry) (other : String) :
    (scope.push name entry).get? other =
      (scope.get? other).or (if name = other then some entry else none) := by
  have last : Scope.get? [(name, entry)] other = if name = other then some entry else none :=
    Scope.get?_cons other name entry []
  rw [← last]
  unfold Scope.get? Scope.push
  exact List.lookup_append

theorem push (alike : first.Alike second) (name : String) (entry : Entry) :
    (first.push name entry).Alike (second.push name entry) := by
  constructor
  · exact alike.names.append_right _
  · intro other
    rw [get?_push, get?_push, alike.found]

theorem push_push (scope : Scope) {name other : String} (different : name ≠ other)
    (entry second : Entry) : ((scope.push name entry).push other second).Alike
      ((scope.push other second).push name entry) := by
  constructor
  · unfold Scope.push
    rw [List.append_assoc, List.append_assoc]
    exact (List.Perm.swap _ _ []).append_left scope
  · intro third
    rw [get?_push, get?_push, get?_push, get?_push, Option.or_assoc, Option.or_assoc]
    congr 1
    by_cases same : name = third
    · have apart : other ≠ third := fun also => different (same.trans also.symm)
      rw [if_pos same, if_neg apart, Option.or_none, Option.none_or]
    · rw [if_neg same, Option.none_or, Option.or_none]

theorem unused_findings (alike : first.Alike second) :
    (Walk.unusedFindings second).Perm (Walk.unusedFindings first) :=
  (alike.names.filter _).map _

end Scope.Alike

/-- The scopes are alike one by one. -/
def SymbolTable.Alike (table other : SymbolTable) : Prop :=
  List.Forall₂ Scope.Alike table.scopes other.scopes

namespace SymbolTable.Alike

variable {table other third : SymbolTable}

theorem refl (table : SymbolTable) : table.Alike table :=
  List.forall₂_same.mpr fun scope _ => .refl scope

theorem trans (alike : table.Alike other) (further : other.Alike third) : table.Alike third := by
  unfold Alike at alike further ⊢
  generalize table.scopes = scopes, other.scopes = others at alike further
  generalize third.scopes = thirds at further ⊢
  induction alike generalizing thirds with
  | nil => exact further
  | cons head _ induction =>
      cases further with
      | cons first rest => exact .cons (head.trans first) (induction _ rest)

theorem current (alike : table.Alike other) : table.current.Alike other.current := by
  unfold Alike at alike
  rw [scopes_eq_cons table, scopes_eq_cons other, List.forall₂_cons] at alike
  exact alike.1

theorem outer (alike : table.Alike other) :
    List.Forall₂ Scope.Alike table.scopes.tail other.scopes.tail := by
  unfold Alike at alike
  rw [scopes_eq_cons table, scopes_eq_cons other, List.forall₂_cons] at alike
  exact alike.2

theorem lookup (alike : table.Alike other) (name : String) :
    other.lookup name = table.lookup name := by
  unfold Alike at alike
  unfold SymbolTable.lookup
  generalize table.scopes = scopes, other.scopes = others at alike ⊢
  induction alike with
  | nil => rfl
  | cons head _ induction => rw [List.findSome?_cons, List.findSome?_cons, head.found, induction]

theorem modify (alike : table.Alike other) (name : String) (change : Entry → Entry) :
    (table.modify name change).Alike (other.modify name change) := by
  unfold Alike at alike ⊢
  rw [scopes_modify, scopes_modify]
  generalize table.scopes = scopes, other.scopes = others at alike ⊢
  induction alike with
  | nil => exact .nil
  | cons head rest induction =>
      rw [Scope.modifyFirst, Scope.modifyFirst, head.contains]
      split
      · exact .cons (head.modify change name) rest
      · exact .cons head induction

theorem define (alike : table.Alike other) {name : String} (entry : Entry)
    (free : table.current.contains name = false) :
    (table.define name entry).2.Alike (other.define name entry).2 := by
  unfold Alike
  rw [(define_of_free free).2, (define_of_free ((alike.current.contains name).trans free)).2]
  exact .cons (alike.current.push name entry) alike.outer

theorem pop (alike : table.Alike other) {scope : Scope} {outer : List Scope}
    (opened : table.inner = scope :: outer) : ∃ second seconds, other.inner = second :: seconds ∧
      scope.Alike second ∧
        SymbolTable.Alike { table with inner := outer } { other with inner := seconds } := by
  unfold Alike SymbolTable.scopes at alike ⊢
  rw [opened] at alike
  cases inner : other.inner with
  | nil =>
      rw [inner] at alike
      have lengths := alike.length_eq
      simp at lengths
  | cons second seconds =>
      rw [inner] at alike
      cases alike with
      | cons head rest => exact ⟨second, seconds, rfl, head, rest⟩

theorem global (alike : table.Alike other) : table.global.Alike other.global := by
  have backwards := List.forall₂_reverse_iff.mpr alike
  rw [SymbolTable.scopes, SymbolTable.scopes, List.reverse_append, List.reverse_append] at backwards
  exact (List.forall₂_cons.mp backwards).1

theorem closed (alike : table.Alike other) (closed : table.inner = []) : other.inner = [] := by
  have lengths := List.Forall₂.length_eq alike
  rw [SymbolTable.scopes, SymbolTable.scopes, closed] at lengths
  simpa using lengths

end SymbolTable.Alike

/-- The tables are alike, and the same has been reported in some order. -/
structure WalkState.Alike (s t : WalkState) : Prop where
  table : s.table.Alike t.table
  reports : t.diagnostics.Perm s.diagnostics

namespace WalkState

variable {s t u : WalkState}

theorem diagnostics_append (table other : SymbolTable) (more trace : List WalkEvent) :
    WalkState.diagnostics ⟨table, more ++ trace⟩ =
      WalkState.diagnostics ⟨other, trace⟩ ++ more.reverse.filterMap WalkEvent.diagnostic? := by
  simp [diagnostics, events]

theorem diagnostics_swap (table : SymbolTable) (first second trace : List WalkEvent) :
    (WalkState.diagnostics ⟨table, first ++ (second ++ trace)⟩).Perm
      (WalkState.diagnostics ⟨table, second ++ (first ++ trace)⟩) := by
  rw [diagnostics_append table table first, diagnostics_append table table second trace,
    diagnostics_append table table second, diagnostics_append table table first trace,
    List.append_assoc, List.append_assoc]
  exact List.perm_append_comm.append_left _

theorem Alike.refl (s : WalkState) : s.Alike s := ⟨.refl _, .refl _⟩

theorem Alike.trans (alike : s.Alike t) (further : t.Alike u) : s.Alike u :=
  ⟨alike.table.trans further.table, further.reports.trans alike.reports⟩

theorem Alike.noted (alike : s.Alike t) {table other : SymbolTable} (tables : table.Alike other)
    (more : List WalkEvent) : Alike ⟨table, more ++ s.trace⟩ ⟨other, more ++ t.trace⟩ := by
  apply Alike.mk tables
  rw [diagnostics_append _ s.table, diagnostics_append _ t.table]
  exact alike.reports.append_right _

theorem Alike.declared (alike : s.Alike t) (declared : Declared) :
    (declared.walk.after s).Alike (declared.walk.after t) := by
  have both := alike.table.current.contains declared.name
  cases taken : s.table.current.contains declared.name with
  | true =>
      rw [taken] at both
      rw [Declared.after_walk_of_taken taken, Declared.after_walk_of_taken both]
      exact alike.noted alike.table _
  | false =>
      rw [taken] at both
      rw [Declared.after_walk_of_free taken, Declared.after_walk_of_free both]
      exact alike.noted (alike.table.define _ taken) []

theorem Alike.reported_unused (alike : s.Alike t) {scope other : Scope}
    (scopes : scope.Alike other) :
    ((Walk.reportUnused scope).after s).Alike ((Walk.reportUnused other).after t) := by
  have reported : ∀ (found : Diagnostics) (u : WalkState),
      WalkState.diagnostics { u with trace := (found.map .reported).reverse ++ u.trace } =
        u.diagnostics ++ found := by
    intro found u
    rw [diagnostics_append _ u.table, List.reverse_reverse, List.filterMap_map]
    congr 1
    exact List.filterMap_some
  rw [Walk.after_report_unused, Walk.after_report_unused]
  constructor
  · exact alike.table
  · rw [reported, reported]
    exact alike.reports.append scopes.unused_findings

theorem Alike.entered (alike : s.Alike t) :
    (Walk.enterScope.after s).Alike (Walk.enterScope.after t) := by
  have depths : t.table.depth = s.table.depth := by
    have lengths := List.Forall₂.length_eq alike.table
    simpa [SymbolTable.scopes, SymbolTable.depth] using lengths.symm
  have pushed : s.table.push.Alike t.table.push := .cons (.refl []) alike.table
  rw [Walk.after_enter_scope, Walk.after_enter_scope, depths]
  exact alike.noted pushed [_]

theorem Alike.left (alike : s.Alike t) :
    (Walk.leaveScope.after s).Alike (Walk.leaveScope.after t) := by
  cases opened : s.table.inner with
  | nil =>
      have closed := alike.table.closed opened
      unfold Walk.leaveScope
      rw [Walk.after_bind, Walk.after_bind, Walk.value_table, Walk.value_table, Walk.after_table,
        Walk.after_table, SymbolTable.pop, SymbolTable.pop, opened, closed]
      exact alike
  | cons scope outer =>
      rcases alike.table.pop opened with ⟨other, others, opened', head, rest⟩
      have closing : WalkState.Alike
          ⟨{ s.table with inner := outer }, .left s.table.depth scope.length :: s.trace⟩
          ⟨{ t.table with inner := others }, .left t.table.depth other.length :: t.trace⟩ := by
        apply Alike.mk rest
        have silent : ∀ (u : WalkState) (table : SymbolTable) (depth names : Nat),
            WalkState.diagnostics ⟨table, .left depth names :: u.trace⟩ = u.diagnostics := by
          intro u table depth names
          have added := diagnostics_append table u.table [.left depth names] u.trace
          exact added.trans (List.append_nil _)
        rw [silent, silent]
        exact alike.reports
      rw [Walk.after_leave_scope opened, Walk.after_leave_scope opened',
        ← Walk.after_report_unused scope ⟨_, _⟩, ← Walk.after_report_unused other ⟨_, _⟩]
      exact closing.reported_unused head

end WalkState

def Kinship.alike : Kinship where
  related _ s t := s.Alike t
  places _ := True
  names _ := True
  meaning := by
    intro depth s t name alike _
    rw [alike.table.lookup]
  inCurrent := by
    intro depth s t name alike _
    exact alike.table.current.found name
  arithmetic := by
    intro depth s t op type alike
    exact alike.noted alike.table [_]
  report := by
    intro depth s t token problem alike _
    exact alike.noted alike.table [_]
  markUsed := by
    intro depth s t name alike _
    exact alike.noted (alike.table.modify name _) []
  markInitialized := by
    intro depth s t name alike _
    exact alike.noted (alike.table.modify name _) []
  declare := by
    intro depth s t declared alike _ _
    exact alike.declared declared
  enter := by
    intro depth s t alike
    exact alike.entered
  leave := by
    intro depth s t alike
    exact alike.left

end TinyPascal
