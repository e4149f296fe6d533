import TinyPascal.Proofs.Siblings.Neighbours

/-!
# The scopes around a procedure

A procedure opens a scope of its own and closes it again. Of the scopes around it, each keeps its
names in their order, and what they stand for. Names may have been marked on the way, and the
innermost of these scopes may list the procedure itself behind all others. No scope is ever closed
that was not opened, so what would happen then makes no difference.
-/

namespace TinyPascal

set_option autoImplicit false

/-- All that has happened to an entry is that it may have been marked. -/
structure Entry.MarkedTo (before after : Entry) : Prop where
  token : after.token = before.token
  meaning : after.meaning = before.meaning
  used : before.used = true → after.used = true
  initialized : before.initialized = true → after.initialized = true

namespace Entry.MarkedTo

variable {before middle after : Entry}

theorem refl (entry : Entry) : entry.MarkedTo entry := ⟨rfl, rfl, id, id⟩

theorem trans (first : before.MarkedTo middle) (second : middle.MarkedTo after) :
    before.MarkedTo after where
  token := second.token.trans first.token
  meaning := second.meaning.trans first.meaning
  used := second.used ∘ first.used
  initialized := second.initialized ∘ first.initialized

theorem touch (touch : Touch) (entry : Entry) : entry.MarkedTo (touch.change entry) := by
  cases touch with
  | used name => exact ⟨rfl, rfl, fun _ => rfl, id⟩
  | initialized name => exact ⟨rfl, rfl, id, fun _ => rfl⟩

end Entry.MarkedTo

/-- The scope has the same names in the same order, and some of them may have been marked. -/
def Scope.MarkedTo (before after : Scope) : Prop :=
  List.Forall₂ (fun pair pair' => pair'.1 = pair.1 ∧ pair.2.MarkedTo pair'.2) before after

namespace Scope.MarkedTo

variable {before middle after : Scope}

theorem refl (scope : Scope) : scope.MarkedTo scope :=
  List.forall₂_same.mpr fun pair _ => ⟨rfl, .refl pair.2⟩

theorem trans (first : before.MarkedTo middle) (second : middle.MarkedTo after) :
    before.MarkedTo after := by
  unfold MarkedTo at first second ⊢
  induction first generalizing after with
  | nil => exact second
  | cons head _ induction =>
      cases second with
      | cons head' others =>
          exact .cons ⟨head'.1.trans head.1, head.2.trans head'.2⟩ (induction others)

theorem touch (touch : Touch) (scope : Scope) :
    scope.MarkedTo (scope.modify touch.change touch.name) := by
  induction scope with
  | nil => exact .nil
  | cons pair scope induction =>
      rw [modify_cons]
      split
      · exact .cons ⟨rfl, .touch touch pair.2⟩ induction
      · exact .cons ⟨rfl, .refl pair.2⟩ induction

end Scope.MarkedTo

namespace SymbolTable

/-- The scopes have been kept, and some names in them may have been marked. -/
def MarkedTo (before after : SymbolTable) : Prop :=
  List.Forall₂ Scope.MarkedTo before.scopes after.scopes

namespace MarkedTo

variable {before middle after : SymbolTable}

theorem refl (table : SymbolTable) : table.MarkedTo table :=
  List.forall₂_same.mpr fun scope _ => .refl scope

theorem trans (first : before.MarkedTo middle) (second : middle.MarkedTo after) :
    before.MarkedTo after := by
  unfold MarkedTo at first second ⊢
  generalize before.scopes = scopes, middle.scopes = others at first second
  generalize after.scopes = thirds at second ⊢
  induction first generalizing thirds with
  | nil => exact second
  | cons head _ induction =>
      cases second with
      | cons head' rest => exact .cons (head.trans head') (induction _ rest)

theorem touch (table : SymbolTable) (touch : Touch) : table.MarkedTo (table.touch touch) := by
  unfold MarkedTo
  rw [scopes_touch]
  induction table.scopes with
  | nil => exact .nil
  | cons scope outer induction =>
      rw [Scope.modifyFirst]
      split
      · exact .cons (.touch touch scope) (List.forall₂_same.mpr fun other _ => .refl other)
      · exact .cons (.refl scope) induction

theorem touch_all (table : SymbolTable) (touches : List Touch) :
    table.MarkedTo (table.touchAll touches) := by
  induction touches generalizing table with
  | nil => exact .refl table
  | cons first others induction => exact (touch table first).trans (induction (table.touch first))

end MarkedTo

end SymbolTable

namespace Program

/-- What a scope gains from a procedure declared in it: the name of the procedure, if it has one
that is not taken. -/
def gained (node : Program) (scope : Scope) : Scope :=
  if node.name.lexeme.isEmpty || scope.contains node.name.lexeme then []
  else [(node.name.lexeme, .ofProcedure node.name (Walk.paramTypes node.params))]

theorem scopes_announced (node : Program) (table : SymbolTable) :
    (node.announced table).scopes =
      (table.current ++ node.gained table.current) :: table.scopes.tail := by
  have same : table.scopes = (table.current ++ []) :: table.scopes.tail := by
    rw [List.append_nil, ← SymbolTable.scopes_eq_cons]
  unfold announced gained
  cases unnamed : node.name.lexeme.isEmpty with
  | true => exact same
  | false =>
      cases taken : table.current.contains node.name.lexeme with
      | true =>
          rw [if_neg Bool.false_ne_true, SymbolTable.define_of_taken taken]
          exact same
      | false =>
          rw [if_neg Bool.false_ne_true, (SymbolTable.define_of_free taken).2]
          rfl

end Program

/-- A walk beside itself, with its depth counted from `base` on. -/
def Kinship.levels (base : Nat) : Kinship where
  related depth s t := t = s ∧ s.table.depth = base + depth
  places _ := True
  names _ := True
  meaning states _ := by rw [states.1]
  inCurrent states _ := by rw [states.1]
  arithmetic op type states := ⟨by rw [states.1], states.2⟩
  report problem states _ := ⟨by rw [states.1], states.2⟩
  markUsed states _ := ⟨by rw [states.1], (SymbolTable.depth_modify _ _ _).trans states.2⟩
  markInitialized states _ := ⟨by rw [states.1], (SymbolTable.depth_modify _ _ _).trans states.2⟩
  declare := by
    intro depth s t declared states _ _
    rcases states with ⟨rfl, depth⟩
    apply And.intro rfl
    cases taken : t.table.current.contains declared.name with
    | true =>
        rw [Declared.after_walk_of_taken taken]
        exact depth
    | false =>
        rw [Declared.after_walk_of_free taken]
        exact (SymbolTable.depth_define _ _ _).trans depth
  enter states := ⟨by rw [states.1], congrArg Nat.succ states.2⟩
  leave := by
    intro depth s t states
    rcases states with ⟨rfl, depth⟩
    rcases List.exists_cons_of_length_eq_add_one depth with ⟨scope, outer, inner⟩
    apply And.intro rfl
    have depths : t.table.inner.length = _ := depth
    rw [inner] at depths
    rw [Walk.after_leave_scope inner]
    exact Nat.succ.inj depths

namespace Walk

/-- Closes the innermost scope like `leaveScope`, and goes on with `failed` where there is none
to close. -/
def leaveScopeOr (failed : Failure → Walk Unit) : Walk Unit := do
  let before ← table
  match before.pop with
  | .ok (scope, table) =>
      setTable table
      note (.left before.depth scope.length)
      reportUnused scope
  | .error failure => failed failure

mutual

/-- Checks a procedure, and tells of every scope that cannot be closed. -/
def procedureOr (failed : Failure → Walk Unit) : Program → Walk Program
  | ⟨keyword, name, params, locals, nested, opening, body⟩ => do
      declareProcedure name params
      enterScope
      declare .ofParam params
      declare .ofVariable locals
      let nested ← proceduresOr failed nested
      let body ← commands body
      leaveScopeOr failed
      return ⟨keyword, name, params, locals, nested, opening, body⟩

def proceduresOr (failed : Failure → Walk Unit) : List Program → Walk (List Program)
  | [] => return []
  | first :: others => do
      let first ← procedureOr failed first
      return first :: (← proceduresOr failed others)

end

def programOr (failed : Failure → Walk Unit) (program : Program) : Walk Program := do
  let (_, table) := (← table).define program.name.lexeme (.ofProgram program.name)
  setTable table
  declare .ofVariable program.locals
  let procedures ← proceduresOr failed program.procedures
  let body ← commands program.body
  reportUnused (← Walk.table).global
  return { program with procedures, body }

section Closing

variable (failed : Failure → Walk Unit) (node : Program)

theorem pop_after_contents (s : WalkState) : ∃ scope outer,
    ((contents node).after (enterScope.after s)).table.pop = .ok (scope, outer) := by
  have opened : (enterScope.after s).table.depth = s.table.depth + 1 := rfl
  rcases (Kinship.levels s.table.depth).agree_contents node (fun _ _ => trivial)
    (fun _ _ => trivial) 1 _ _ ⟨rfl, opened⟩ with ⟨-, -, depth⟩
  rcases List.exists_cons_of_length_eq_add_one depth with ⟨scope, outer, inner⟩
  unfold SymbolTable.pop
  rw [inner]
  exact ⟨scope, _, rfl⟩

theorem leave_scope_or_of_pop {s : WalkState} {scope : Scope} {outer : SymbolTable}
    (closes : s.table.pop = .ok (scope, outer)) : leaveScopeOr failed s = leaveScope s := by
  have reads : ∀ next : SymbolTable → Walk Unit, (table >>= next) s = next s.table s := fun _ => rfl
  unfold leaveScopeOr leaveScope
  rw [reads, reads, closes]

theorem closing_eq (give : List Program × List Command → Program) :
    (do
      enterScope
      let checked ← contents node
      leaveScopeOr failed
      return give checked) =
    (do
      enterScope
      let checked ← contents node
      leaveScope
      return give checked) := by
  funext s
  rcases pop_after_contents node s with ⟨scope, outer, closes⟩
  have same := leave_scope_or_of_pop failed closes
  exact congrArg (fun closed => (give ((contents node).value (enterScope.after s)), closed.2)) same

mutual

theorem procedure_or_eq : (node : Program) → procedureOr failed node = procedure node
  | ⟨keyword, name, params, locals, nested, opening, body⟩ => by
      have closing := closing_eq failed ⟨keyword, name, params, locals, nested, opening, body⟩
        fun checked => ⟨keyword, name, params, locals, checked.1, opening, checked.2⟩
      rw [procedureOr, procedures_or_eq nested, procedure]
      exact congrArg (fun inside => declareProcedure name params >>= fun _ => inside) closing

theorem procedures_or_eq : (nodes : List Program) → proceduresOr failed nodes = procedures nodes
  | [] => rfl
  | first :: others => by
      rw [proceduresOr, procedure_or_eq first, procedures_or_eq others, procedures]

end

theorem program_or_eq : programOr failed node = program node := by
  rw [programOr, procedures_or_eq]
  rfl

end Closing

theorem depth_procedure (node : Program) (s : WalkState) :
    ((procedure node).after s).table.depth = s.table.depth := by
  rcases procedure_touches node s with ⟨touches, events, -, after⟩
  rw [after, SymbolTable.depth_touch_all, Program.depth_announced]

/-- The scopes around a procedure are kept, and the innermost may have gained its name. -/
theorem scopes_procedure (node : Program) (s : WalkState) :
    List.Forall₂ Scope.MarkedTo
      ((s.table.current ++ node.gained s.table.current) :: s.table.scopes.tail)
      ((procedure node).after s).table.scopes := by
  rcases procedure_touches node s with ⟨touches, events, -, after⟩
  rw [after, ← node.scopes_announced]
  exact SymbolTable.MarkedTo.touch_all _ touches

theorem depth_program (node : Program) : ((program node).after .start).table.depth = 0 := by
  let start := (Declared.program node.name).walk.after .start
  have opened : start.table.depth = 0 := SymbolTable.depth_define .empty _ _
  have agree := @Kinship.agree_globals (Kinship.levels 0) 0 node (fun _ _ => trivial)
    (fun _ _ => trivial) (fun _ _ => trivial) (fun _ _ => trivial) (fun _ _ => trivial)
    fun _ _ => trivial
  rcases agree start start ⟨rfl, opened⟩ with ⟨-, -, depth⟩
  have last := after_report_unused ((globals node).after start).table.global
    ((globals node).after start)
  have same : (program node).after .start = _ := last
  rw [same]
  exact depth

/-- Procedures leave the scopes around them as they are. Behind a procedure as many scopes are open
as before it; those around it have the same names in the same order, with the same tokens and
meanings, and are marked where they were marked before. The innermost of them has gained, behind
all others, at most the name of the procedure. No scope is ever closed where none is open, so that
it makes no difference what were to happen then, and in the end only the global scope is open. -/
theorem procedures_frame_the_scopes_around_them :
    (∀ (node : Program) (s : WalkState),
      ((procedure node).after s).table.depth = s.table.depth ∧
      List.Forall₂ Scope.MarkedTo
        ((s.table.current ++ node.gained s.table.current) :: s.table.scopes.tail)
        ((procedure node).after s).table.scopes) ∧
    (∀ (failed : Failure → Walk Unit) (node : Program),
      procedureOr failed node = procedure node ∧ programOr failed node = program node) ∧
    ∀ node : Program, ((program node).after .start).table.depth = 0 := by
  refine ⟨?_, ?_, depth_program⟩
  · intro node s
    exact ⟨depth_procedure node s, scopes_procedure node s⟩
  · intro failed node
    exact ⟨procedure_or_eq failed node, program_or_eq failed node⟩

end Walk

end TinyPascal
