import TinyPascal.Proofs.Scoping.Route

/-!
# What a check does to the table

A check of a name leaves two things behind: the table, in which the name may have been marked as
used, and what it reports about names. Neither depends on the types that are compared on the way.
-/

namespace TinyPascal

set_option autoImplicit false

/-- The kinds of findings about names: a name without a declaration, a declaration whose name is
taken, and a declaration that nothing uses. -/
inductive NamingKind where
  | undeclared | redeclared | unused
deriving DecidableEq, Repr

namespace SemanticProblem

def namingKind? : SemanticProblem → Option NamingKind
  | undeclaredTarget _ | undeclaredCallee _ | undeclaredOperand _ => some .undeclared
  | redeclaredVariable _ | redeclaredProcedure _ => some .redeclared
  | unusedVariable _ | unusedProcedure _ => some .unused
  | _ => none

def isNaming (problem : SemanticProblem) : Bool := problem.namingKind?.isSome

def isOf (kind : NamingKind) (problem : SemanticProblem) : Bool :=
  problem.namingKind? = some kind

end SemanticProblem

theorem Diagnostic.not_naming_of_typing {diagnostic : Diagnostic}
    (typing : diagnostic.concerns SemanticProblem.isTyping = true) :
    diagnostic.concerns SemanticProblem.isNaming = false := by
  rcases diagnostic with ⟨severity, line, column, problem⟩
  cases problem with
  | semantic problem =>
      cases problem <;> first | rfl | cases typing
  | lexical problem => rfl
  | syntactic problem => rfl
  | stated phase text => rfl

namespace WalkState

variable {s s' : WalkState}

def findings (s : WalkState) : Diagnostics :=
  s.diagnostics.filter (Diagnostic.concerns SemanticProblem.isNaming)

theorem findings_append {more : List WalkEvent} (trace : s'.trace = more ++ s.trace) :
    s'.findings = s.findings ++ (more.reverse.filterMap WalkEvent.diagnostic?).filter
      (Diagnostic.concerns SemanticProblem.isNaming) := by
  unfold findings diagnostics events
  rw [trace, List.reverse_append, List.filterMap_append, List.filter_append]

theorem Idles.findings (idles : s.Idles s') : s'.findings = s.findings := by
  rcases idles.trace with ⟨more, trace, typing⟩
  rw [findings_append trace, List.append_right_eq_self, List.filter_eq_nil_iff]
  intro diagnostic member concerns
  rcases List.mem_filterMap.mp member with ⟨event, among, reported⟩
  have compared := typing event (List.mem_reverse.mp among)
  cases event with
  | reported found =>
      cases reported
      rw [Diagnostic.not_naming_of_typing compared] at concerns
      cases concerns
  | entered depth => cases reported
  | left depth names => cases reported
  | arithmetic op type => cases reported

end WalkState

namespace Walk

variable {α β : Type} {s : WalkState} {table table' : SymbolTable} {remarks more : Diagnostics}

/-- From `s` the walk ends with `table` and reports about names what `remarks` lists. -/
structure Leaves (walk : Walk α) (s : WalkState) (table : SymbolTable) (remarks : Diagnostics) :
    Prop where
  table : (walk.after s).table = table
  findings : (walk.after s).findings = s.findings ++ remarks

def Quiet (walk : Walk α) : Prop := ∀ s : WalkState, Leaves walk s s.table []

theorem Leaves.bind {walk : Walk α} {next : α → Walk β} (first : Leaves walk s table remarks)
    (second : Leaves (next (walk.value s)) (walk.after s) table' more) :
    Leaves (walk >>= next) s table' (remarks ++ more) := by
  constructor
  · exact second.table
  · rw [after_bind, second.findings, first.findings, List.append_assoc]

/-- What is quiet behind a walk does not show. -/
theorem Leaves.quiet {walk : Walk α} {next : α → Walk β} (first : Leaves walk s table remarks)
    (second : ∀ a, Quiet (next a)) : Leaves (walk >>= next) s table remarks := by
  have both := first.bind (second (walk.value s) (walk.after s))
  rwa [first.table, List.append_nil] at both

theorem quiet_pure (a : α) : Quiet (pure a : Walk α) := by
  intro s
  exact ⟨rfl, (List.append_nil _).symm⟩

theorem Quiet.bind {walk : Walk α} {next : α → Walk β} (first : Quiet walk)
    (second : ∀ a, Quiet (next a)) : Quiet (walk >>= next) := by
  intro s
  exact (first s).quiet second

theorem leaves_report (token : Token) (problem : SemanticProblem) :
    Leaves (report token problem) s s.table
      (if problem.isNaming then [finding token problem] else []) := by
  constructor
  · rfl
  · have trace : ((report token problem).after s).trace =
        [.reported (finding token problem)] ++ s.trace := rfl
    rw [WalkState.findings_append trace, List.reverse_singleton]
    congr 1
    cases naming : problem.isNaming with
    | false => simp [WalkEvent.diagnostic?, finding, Diagnostic.concerns, Diagnostic.about, naming]
    | true => simp [WalkEvent.diagnostic?, finding, Diagnostic.concerns, Diagnostic.about, naming]

theorem quiet_report {problem : SemanticProblem} (other : problem.isNaming = false)
    (token : Token) : Quiet (report token problem) := by
  intro s
  have leaves := leaves_report (s := s) token problem
  rwa [other] at leaves

theorem quiet_compare (expected : Option ScalarType) (actual : Operand) (token : Token) :
    Quiet (compare expected actual token) := by
  intro s
  have idles := idles_compare (s := s) expected actual token
  exact ⟨idles.table, by rw [idles.findings, List.append_nil]⟩

theorem leaves_mark_used (name : String) : Leaves (markUsed name) s (s.table.markUsed name) [] :=
  ⟨rfl, (List.append_nil _).symm⟩

theorem leaves_check_arity (token : Token) (supplied : Nat) (params : List ScalarType) :
    Leaves (checkArity token supplied params) s (s.table.markUsed token.lexeme) [] := by
  unfold checkArity
  apply (leaves_mark_used token.lexeme).quiet
  intro _
  split
  · exact quiet_report rfl token
  · split
    · exact quiet_report rfl token
    · exact quiet_pure _

theorem leaves_lookup_bind {name : String} {next : Option Entry → Walk β}
    (rest : Leaves (next (s.table.lookup name)) s table remarks) :
    Leaves (lookup name >>= next) s table remarks := ⟨rest.table, rest.findings⟩

theorem leaves_table_bind {next : SymbolTable → Walk β}
    (rest : Leaves (next s.table) s table remarks) :
    Leaves (Walk.table >>= next) s table remarks := ⟨rest.table, rest.findings⟩

theorem leaves_read_name (token : Token) (s : WalkState) :
    Leaves (readName token) s (s.table.markUsed token.lexeme)
      (if s.table.lookup token.lexeme = none then
        [finding token (.undeclaredOperand token.lexeme)] else []) := by
  unfold readName
  apply leaves_lookup_bind
  cases found : s.table.lookup token.lexeme with
  | none =>
      rw [SymbolTable.markUsed, SymbolTable.modify_of_lookup_none _ found]
      exact (leaves_report token _).quiet fun _ => quiet_pure _
  | some entry =>
      have marked : ∀ s : WalkState, Leaves (do markUsed token.lexeme; pure (some entry.meaning)) s
          (s.table.markUsed token.lexeme) [] :=
        fun s => (leaves_mark_used token.lexeme).quiet fun _ => quiet_pure _
      simp only [reduceCtorEq, if_false]
      apply leaves_table_bind
      split
      · exact (quiet_report rfl token s).bind (marked _)
      · exact marked s

theorem value_read_name (token : Token) (s : WalkState) :
    (readName token).value s = (s.table.lookup token.lexeme).map Entry.meaning := by
  unfold readName
  rw [value_bind, value_lookup]
  cases found : s.table.lookup token.lexeme with
  | none => rfl
  | some entry =>
      dsimp only
      rw [value_bind]
      split <;> rfl

theorem mark_used_mark_used (table : SymbolTable) (name : String) :
    (table.markUsed name).markUsed name = table.markUsed name := by
  unfold SymbolTable.markUsed
  rw [SymbolTable.modify_modify]
  rfl

/-- The walk uses at most `name`. -/
def Uses (name : String) (walk : Walk α) : Prop :=
  ∀ s : WalkState, Leaves walk s s.table [] ∨ Leaves walk s (s.table.markUsed name) []

theorem Quiet.uses {walk : Walk α} (quiet : Quiet walk) (name : String) : Uses name walk := by
  intro s
  exact .inl (quiet s)

/-- A name that was used already does not change by being used. -/
theorem Leaves.uses {walk : Walk α} {next : α → Walk β} {name : String}
    (first : Leaves walk s (table.markUsed name) remarks) (second : ∀ a, Uses name (next a)) :
    Leaves (walk >>= next) s (table.markUsed name) remarks := by
  cases second (walk.value s) (walk.after s) with
  | inl unchanged =>
      have both := first.bind unchanged
      rwa [first.table, List.append_nil] at both
  | inr marked =>
      have both := first.bind marked
      rwa [first.table, mark_used_mark_used, List.append_nil] at both

theorem uses_check_arity (token : Token) (supplied : Nat) (params : List ScalarType) {rest : Walk α}
    (quiet : Quiet rest) {problem : SemanticProblem} (other : problem.isNaming = false) :
    Uses token.lexeme (do report token problem; checkArity token supplied params; rest) := by
  intro s
  apply Or.inr
  exact (quiet_report other token s).bind ((leaves_check_arity token supplied params).quiet
    fun _ => quiet)

theorem leaves_check_name (expected : Option ScalarType) (token : Token) (s : WalkState) :
    Leaves (checkName expected token) s (s.table.markUsed token.lexeme)
      (if s.table.lookup token.lexeme = none then
        [finding token (.undeclaredOperand token.lexeme)] else []) := by
  unfold checkName
  apply (leaves_read_name token s).uses
  intro found
  split
  · exact (quiet_pure _).uses _
  · exact uses_check_arity token 0 _ (quiet_pure _) rfl
  · exact ((quiet_report rfl token).bind fun _ => quiet_pure _).uses _
  · exact ((quiet_compare expected _ token).bind fun _ => quiet_pure _).uses _

theorem leaves_check_callee (token : Token) (supplied : Nat) (s : WalkState) :
    Leaves (checkCallee token supplied) s (s.table.markUsed token.lexeme)
      (if s.table.lookup token.lexeme = none then
        [finding token (.undeclaredOperand token.lexeme)] else []) := by
  unfold checkCallee
  apply (leaves_read_name token s).uses
  intro found
  split
  · exact (quiet_pure _).uses _
  · exact uses_check_arity token supplied _ (quiet_pure _) rfl
  · exact ((quiet_report rfl token).bind fun _ => quiet_pure _).uses _
  · exact ((quiet_report rfl token).bind fun _ => quiet_pure _).uses _

theorem value_check_name (expected : Option ScalarType) (token : Token) (s : WalkState) :
    (checkName expected token).value s = (s.table.lookup token.lexeme).bind Entry.type? := by
  unfold checkName
  rw [value_bind, value_read_name]
  cases s.table.lookup token.lexeme with
  | none => rfl
  | some entry =>
      rcases entry with ⟨place, meaning, initialized, used⟩
      cases meaning <;> rfl

theorem leaves_check_target (op target : Token) (s : WalkState) :
    Leaves (checkTarget op target) s s.table
      (if s.table.lookup target.lexeme = none then
        [finding target (.undeclaredTarget target.lexeme)] else []) := by
  unfold checkTarget
  apply leaves_lookup_bind
  cases s.table.lookup target.lexeme with
  | none => exact (leaves_report target _).quiet fun _ => quiet_pure _
  | some entry =>
      rcases entry with ⟨place, meaning, initialized, used⟩
      cases meaning with
      | variableOf type => exact quiet_pure _ s
      | procedureOn params => exact (quiet_report rfl op).bind (fun _ => quiet_pure _) s
      | programName => exact (quiet_report rfl op).bind (fun _ => quiet_pure _) s

theorem leaves_check_control (op target : Token) (s : WalkState) :
    Leaves (checkControl op target) s s.table
      (if s.table.lookup target.lexeme = none then
        [finding target (.undeclaredTarget target.lexeme)] else []) := by
  have local? : Quiet (do
      if ((← Walk.table).lookupInCurrent target.lexeme).isNone then
        report target .controlNotLocal) := by
    intro s
    apply leaves_table_bind
    split
    · exact quiet_report rfl target s
    · exact quiet_pure _ s
  unfold checkControl
  apply leaves_lookup_bind
  cases s.table.lookup target.lexeme with
  | none => exact leaves_report target _
  | some entry =>
      rcases entry with ⟨place, meaning, initialized, used⟩
      cases meaning with
      | variableOf type =>
          cases type with
          | integer => exact local? s
          | real => exact (quiet_report rfl target).bind (fun _ => local?) s
          | boolean => exact (quiet_report rfl target).bind (fun _ => local?) s
      | procedureOn params => exact (quiet_report rfl op).bind (fun _ => local?) s
      | programName => exact (quiet_report rfl op).bind (fun _ => local?) s

theorem leaves_check_call (token : Token) (supplied : Nat) (s : WalkState) :
    Leaves (checkCall token supplied) s
      (if ((s.table.lookup token.lexeme).bind Entry.params?).isSome then
        s.table.markUsed token.lexeme else s.table)
      (if s.table.lookup token.lexeme = none then
        [finding token (.undeclaredCallee token.lexeme)] else []) := by
  unfold checkCall
  apply leaves_lookup_bind
  cases s.table.lookup token.lexeme with
  | none => exact (leaves_report token _).quiet fun _ => quiet_pure _
  | some entry =>
      rcases entry with ⟨place, meaning, initialized, used⟩
      cases meaning with
      | variableOf type => exact (quiet_report rfl token).bind (fun _ => quiet_pure _) s
      | procedureOn params =>
          exact (leaves_check_arity token supplied params).quiet fun _ => quiet_pure _
      | programName => exact (quiet_report rfl token).bind (fun _ => quiet_pure _) s

end Walk

end TinyPascal
