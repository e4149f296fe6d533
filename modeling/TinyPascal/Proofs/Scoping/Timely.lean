import TinyPascal.Proofs.Scoping.Route

/-!
# Checks that find a variable without a value

A check reports a variable as read too early only where a name is read in an expression, and
then if the table holds the name in its innermost scope without a value. All other checks and all
moves between scopes say nothing about it.
-/

namespace TinyPascal

set_option autoImplicit false

def SemanticProblem.isEarly : SemanticProblem → Bool
  | uninitialized _ => true
  | _ => false

def Diagnostics.early (found : Diagnostics) : Diagnostics :=
  found.filter (Diagnostic.concerns SemanticProblem.isEarly)

theorem Diagnostics.early_append (found more : Diagnostics) :
    early (found ++ more) = found.early ++ more.early :=
  List.filter_append found more

theorem Diagnostic.not_early_of_typing {diagnostic : Diagnostic}
    (typing : diagnostic.concerns SemanticProblem.isTyping = true) :
    diagnostic.concerns SemanticProblem.isEarly = false := by
  rcases diagnostic with ⟨severity, line, column, problem⟩
  cases problem with
  | semantic problem =>
      cases problem <;> first | rfl | cases typing
  | lexical problem => rfl
  | syntactic problem => rfl
  | stated phase text => rfl

namespace WalkState

variable {s s' : WalkState}

/-- The variables that have been reported as read too early, in order. -/
def early (s : WalkState) : Diagnostics := Diagnostics.early s.diagnostics

theorem early_append {more : List WalkEvent} (trace : s'.trace = more ++ s.trace) :
    s'.early = s.early ++ Diagnostics.early (more.reverse.filterMap WalkEvent.diagnostic?) := by
  unfold early diagnostics events
  rw [trace, List.reverse_append, List.filterMap_append, Diagnostics.early_append]

theorem Idles.early (idles : s.Idles s') : s'.early = s.early := by
  rcases idles.trace with ⟨more, trace, typing⟩
  rw [early_append trace, List.append_right_eq_self, Diagnostics.early, List.filter_eq_nil_iff]
  intro diagnostic member concerns
  rcases List.mem_filterMap.mp member with ⟨event, among, reported⟩
  have compared := typing event (List.mem_reverse.mp among)
  cases event with
  | reported found =>
      cases reported
      rw [Diagnostic.not_early_of_typing compared] at concerns
      cases concerns
  | entered depth => cases reported
  | left depth names => cases reported
  | arithmetic op type => cases reported

end WalkState

namespace Walk

variable {α β : Type} {s : WalkState} {remarks more : Diagnostics}

/-- From `s` the walk reports `remarks`, as far as variables are read too early. -/
def Warns (walk : Walk α) (s : WalkState) (remarks : Diagnostics) : Prop :=
  (walk.after s).early = s.early ++ remarks

def Timely (walk : Walk α) : Prop := ∀ s, Warns walk s []

theorem Warns.bind {walk : Walk α} {next : α → Walk β} (first : Warns walk s remarks)
    (second : Warns (next (walk.value s)) (walk.after s) more) :
    Warns (walk >>= next) s (remarks ++ more) := by
  unfold Warns at first second ⊢
  rw [after_bind, second, first, List.append_assoc]

theorem Warns.timely {walk : Walk α} {next : α → Walk β} (first : Warns walk s remarks)
    (second : ∀ a, Timely (next a)) : Warns (walk >>= next) s remarks := by
  have both := first.bind (second (walk.value s) (walk.after s))
  rwa [List.append_nil] at both

theorem timely_of_trace {walk : Walk α} (same : ∀ s, (walk.after s).trace = s.trace) :
    Timely walk := by
  intro s
  have nothing : (walk.after s).trace = [] ++ s.trace := same s
  exact WalkState.early_append nothing

theorem timely_pure (a : α) : Timely (pure a : Walk α) := timely_of_trace fun _ => rfl

theorem timely_mark_used (name : String) : Timely (markUsed name) := timely_of_trace fun _ => rfl

theorem Timely.bind {walk : Walk α} {next : α → Walk β} (first : Timely walk)
    (second : ∀ a, Timely (next a)) : Timely (walk >>= next) := by
  intro s
  exact (first s).timely second

theorem timely_table_bind {next : SymbolTable → Walk β} (rest : ∀ table, Timely (next table)) :
    Timely (Walk.table >>= next) :=
  (timely_of_trace fun _ => rfl).bind rest

theorem timely_lookup_bind {name : String} {next : Option Entry → Walk β}
    (rest : ∀ found, Timely (next found)) : Timely (lookup name >>= next) :=
  (timely_of_trace fun _ => rfl).bind rest

theorem warns_lookup_bind {name : String} {next : Option Entry → Walk β}
    (rest : Warns (next (s.table.lookup name)) s remarks) :
    Warns (lookup name >>= next) s remarks := rest

theorem warns_table_bind {next : SymbolTable → Walk β} (rest : Warns (next s.table) s remarks) :
    Warns (Walk.table >>= next) s remarks := rest

theorem warns_report (token : Token) (problem : SemanticProblem) (s : WalkState) :
    Warns (report token problem) s (if problem.isEarly then [finding token problem] else []) := by
  have trace : ((report token problem).after s).trace =
      [.reported (finding token problem)] ++ s.trace := rfl
  unfold Warns
  rw [WalkState.early_append trace, List.reverse_singleton]
  cases early : problem.isEarly <;>
    simp [WalkEvent.diagnostic?, Diagnostics.early, finding, Diagnostic.concerns, Diagnostic.about,
      early]

theorem timely_report {problem : SemanticProblem} (other : problem.isEarly = false)
    (token : Token) : Timely (report token problem) := by
  intro s
  have warns := warns_report token problem s
  rwa [other] at warns

theorem timely_compare (expected : Option ScalarType) (actual : Operand) (token : Token) :
    Timely (compare expected actual token) := by
  intro s
  exact (idles_compare expected actual token).early.trans (List.append_nil _).symm

theorem timely_check_arity (token : Token) (supplied : Nat) (params : List ScalarType) :
    Timely (checkArity token supplied params) := by
  unfold checkArity
  apply (timely_mark_used _).bind
  intro _
  split
  · exact timely_report rfl token
  · split
    · exact timely_report rfl token
    · exact timely_pure _

end Walk

/-- Whether `name` stands for something in the innermost scope that has no value yet. -/
def SymbolTable.lacksValue (table : SymbolTable) (name : String) : Bool :=
  (table.lookupInCurrent name).isSome && (table.lookup name).any fun entry => !entry.initialized

namespace Walk

variable {s : WalkState}

theorem warns_read_name (token : Token) (s : WalkState) :
    Warns (readName token) s
      (if s.table.lacksValue token.lexeme then [finding token (.uninitialized token.lexeme)]
      else []) := by
  have used : ∀ entry : Entry,
      Timely (do markUsed token.lexeme; pure (some entry.meaning) : Walk (Option Meaning)) :=
    fun _ => (timely_mark_used _).bind fun _ => timely_pure _
  unfold readName SymbolTable.lacksValue
  apply warns_lookup_bind
  cases s.table.lookup token.lexeme with
  | none =>
      rw [Option.any_none, Bool.and_false]
      exact (timely_report rfl token).bind (fun _ => timely_pure _) s
  | some entry =>
      rw [Option.any_some]
      apply warns_table_bind
      split
      · exact (warns_report token _ s).timely fun _ => used entry
      · exact used entry s

/-- A name that is read in an expression is reported when it is looked up; what is said about its
meaning afterwards does not matter. -/
theorem warns_check_name (expected : Option ScalarType) (token : Token) (s : WalkState) :
    Warns (checkName expected token) s
      (if s.table.lacksValue token.lexeme then [finding token (.uninitialized token.lexeme)]
      else []) := by
  unfold checkName
  apply (warns_read_name token s).timely
  intro found
  split
  · exact timely_pure _
  · exact (timely_report rfl token).bind fun _ =>
      (timely_check_arity _ _ _).bind fun _ => timely_pure _
  · exact (timely_report rfl token).bind fun _ => timely_pure _
  · exact (timely_compare _ _ token).bind fun _ => timely_pure _

theorem warns_check_callee (token : Token) (supplied : Nat) (s : WalkState) :
    Warns (checkCallee token supplied) s
      (if s.table.lacksValue token.lexeme then [finding token (.uninitialized token.lexeme)]
      else []) := by
  unfold checkCallee
  apply (warns_read_name token s).timely
  intro found
  split
  · exact timely_pure _
  · exact (timely_report rfl token).bind fun _ =>
      (timely_check_arity _ _ _).bind fun _ => timely_pure _
  · exact (timely_report rfl token).bind fun _ => timely_pure _
  · exact (timely_report rfl token).bind fun _ => timely_pure _

theorem timely_check_target (op target : Token) : Timely (checkTarget op target) := by
  unfold checkTarget
  apply timely_lookup_bind
  intro found
  split
  · exact timely_pure _
  · exact (timely_report rfl op).bind fun _ => timely_pure _
  · exact (timely_report rfl op).bind fun _ => timely_pure _
  · exact (timely_report rfl target).bind fun _ => timely_pure _

theorem timely_check_control (op target : Token) : Timely (checkControl op target) := by
  have local? : Timely (do
      if ((← Walk.table).lookupInCurrent target.lexeme).isNone then
        report target .controlNotLocal) := by
    apply timely_table_bind
    intro table
    split
    · exact timely_report rfl target
    · exact timely_pure _
  unfold checkControl
  apply timely_lookup_bind
  intro found
  split
  · exact timely_report rfl target
  · split
    · exact (timely_report rfl op).bind fun _ => local?
    · exact (timely_report rfl op).bind fun _ => local?
    · exact local?
    · exact (timely_report rfl target).bind fun _ => local?

theorem timely_check_call (token : Token) (supplied : Nat) : Timely (checkCall token supplied) := by
  unfold checkCall
  apply timely_lookup_bind
  intro found
  split
  · exact (timely_check_arity _ _ _).bind fun _ => timely_pure _
  · exact (timely_report rfl token).bind fun _ => timely_pure _
  · exact (timely_report rfl token).bind fun _ => timely_pure _

theorem timely_define (token : Token) (entry : Entry) {taken : SemanticProblem}
    (other : taken.isEarly = false) : Timely (define token entry taken) := by
  unfold define
  apply timely_table_bind
  intro table
  generalize table.define token.lexeme entry = result
  rcases result with ⟨fresh, table⟩
  apply (timely_of_trace fun _ => rfl).bind
  intro _
  cases fresh with
  | true => exact timely_pure _
  | false => exact timely_report other token

theorem timely_report_unused (scope : Scope) : Timely (reportUnused scope) := by
  unfold reportUnused
  generalize scope.unused = unused
  induction unused with
  | nil => exact timely_pure _
  | cons pair unused induction =>
      rw [List.forM]
      apply Timely.bind _ fun _ => induction
      dsimp only
      split
      · exact timely_report rfl _
      · exact timely_report rfl _

theorem timely_note {event : WalkEvent} (silent : event.diagnostic? = none) :
    Timely (note event) := by
  intro s
  have trace : ((note event).after s).trace = [event] ++ s.trace := rfl
  unfold Warns
  rw [WalkState.early_append trace]
  simp [silent, Diagnostics.early]

theorem timely_enter_scope : Timely enterScope := by
  unfold enterScope
  apply timely_table_bind
  intro table
  exact (timely_of_trace fun _ => rfl).bind fun _ => timely_note rfl

theorem timely_leave_scope : Timely leaveScope := by
  unfold leaveScope
  apply timely_table_bind
  intro before
  split
  · exact (timely_of_trace fun _ => rfl).bind fun _ =>
      (timely_note rfl).bind fun _ => timely_report_unused _
  · exact timely_pure _

end Walk

theorem Declared.timely_walk (declared : Declared) : Walk.Timely declared.walk := by
  cases declared with
  | program token => exact Walk.timely_of_trace fun _ => rfl
  | procedure token params => exact Walk.timely_define token _ rfl
  | param token type => exact Walk.timely_define token _ rfl
  | var token type => exact Walk.timely_define token _ rfl

namespace Mention

open Walk

def isRead : Mention → Bool
  | operand _ | applied _ _ => true
  | target _ | control _ | callee _ _ => false

theorem warns_walk (how : Mention) (expected : Option ScalarType) (token : Token) (s : WalkState) :
    Warns (how.walk expected token) s
      (if how.isRead && s.table.lacksValue token.lexeme then
        [finding token (.uninitialized token.lexeme)]
      else []) := by
  cases how with
  | target op => exact (timely_check_target op token).bind (fun _ => timely_pure _) s
  | control op => exact (timely_check_control op token).bind (fun _ => timely_pure _) s
  | callee supplied resolved => exact (timely_check_call token _).bind (fun _ => timely_pure _) s
  | operand resolved => exact (warns_check_name expected token s).timely fun _ => timely_pure _
  | applied supplied resolved => exact (warns_check_callee token _ s).timely fun _ => timely_pure _

end Mention

theorem Naming.timely_assign (token : Token) : Walk.Timely (Naming.assign token) := by
  unfold assign
  apply Walk.timely_lookup_bind
  intro found
  split
  · exact Walk.timely_of_trace fun _ => rfl
  · exact Walk.timely_pure _

end TinyPascal
