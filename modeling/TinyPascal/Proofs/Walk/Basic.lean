import Mathlib.Data.List.Infix
import TinyPascal.Analysis.Program
import TinyPascal.Proofs.Scoping.Table

/-!
# What a walk leaves behind

A walk ends in a state and has a value; both are put together step by step. Checking an
expression never takes a name away or changes what it stands for: it marks names as used and
adds to the trace.
-/

namespace TinyPascal

set_option autoImplicit false

namespace WalkState

def events (s : WalkState) : List WalkEvent := s.trace.reverse

def diagnostics (s : WalkState) : Diagnostics := s.events.filterMap WalkEvent.diagnostic?

end WalkState

namespace Walk

variable {α β : Type}

def after (walk : Walk α) (s : WalkState) : WalkState := (walk.run s).2

def value (walk : Walk α) (s : WalkState) : α := (walk.run s).1

@[simp]
theorem after_pure (a : α) (s : WalkState) : (pure a : Walk α).after s = s := rfl

@[simp]
theorem value_pure (a : α) (s : WalkState) : (pure a : Walk α).value s = a := rfl

@[simp]
theorem after_bind (walk : Walk α) (next : α → Walk β) (s : WalkState) :
    (walk >>= next).after s = (next (walk.value s)).after (walk.after s) := rfl

@[simp]
theorem value_bind (walk : Walk α) (next : α → Walk β) (s : WalkState) :
    (walk >>= next).value s = (next (walk.value s)).value (walk.after s) := rfl

@[simp]
theorem after_map (f : α → β) (walk : Walk α) (s : WalkState) :
    (f <$> walk).after s = walk.after s := rfl

@[simp]
theorem value_map (f : α → β) (walk : Walk α) (s : WalkState) :
    (f <$> walk).value s = f (walk.value s) := rfl

@[simp]
theorem after_note (event : WalkEvent) (s : WalkState) :
    (note event).after s = { s with trace := event :: s.trace } := rfl

def finding (token : Token) (problem : SemanticProblem) : Diagnostic :=
  .about .error token (.semantic problem)

@[simp]
theorem after_report (token : Token) (problem : SemanticProblem) (s : WalkState) :
    (report token problem).after s =
      { s with trace := .reported (finding token problem) :: s.trace } := rfl

@[simp]
theorem after_table (s : WalkState) : table.after s = s := rfl

@[simp]
theorem value_table (s : WalkState) : table.value s = s.table := rfl

@[simp]
theorem after_lookup (name : String) (s : WalkState) : (lookup name).after s = s := rfl

@[simp]
theorem value_lookup (name : String) (s : WalkState) :
    (lookup name).value s = s.table.lookup name := rfl

@[simp]
theorem after_mark_used (name : String) (s : WalkState) :
    (markUsed name).after s = { s with table := s.table.markUsed name } := rfl

end Walk

namespace WalkState

@[simp]
theorem diagnostics_reported (s : WalkState) (diagnostic : Diagnostic) :
    ({ s with trace := .reported diagnostic :: s.trace } : WalkState).diagnostics =
      s.diagnostics ++ [diagnostic] := by
  simp [diagnostics, events, WalkEvent.diagnostic?]

end WalkState

/-- All that is known about a name but whether it was used. -/
def Entry.plain (entry : Entry) : Entry := { entry with used := false }

/-- From `s` to `s'` names may have been used and things may have happened, but nothing was
declared, assigned or forgotten. -/
structure WalkState.Keeps (s s' : WalkState) : Prop where
  entries : ∀ name, (s'.table.lookup name).map Entry.plain = (s.table.lookup name).map Entry.plain
  grows : s.trace <:+ s'.trace

namespace WalkState.Keeps

variable {s s' s'' : WalkState}

theorem refl (s : WalkState) : Keeps s s := ⟨fun _ => rfl, List.suffix_rfl⟩

theorem trans (first : Keeps s s') (second : Keeps s' s'') : Keeps s s'' :=
  ⟨fun name => (second.entries name).trans (first.entries name), first.grows.trans second.grows⟩

theorem noted (s : WalkState) (event : WalkEvent) : Keeps s { s with trace := event :: s.trace } :=
  ⟨fun _ => rfl, List.suffix_cons event s.trace⟩

theorem used (s : WalkState) (name : String) :
    Keeps s { s with table := s.table.markUsed name } := by
  constructor
  · intro other
    rw [SymbolTable.markUsed, SymbolTable.lookup_modify]
    by_cases same : other = name
    · rw [if_pos same, Option.map_map]
      rfl
    · rw [if_neg same]
  · exact List.suffix_rfl

theorem lookup_map {β : Type} (keeps : Keeps s s') (view : Entry → β)
    (blind : ∀ entry, view entry.plain = view entry) (name : String) :
    (s'.table.lookup name).map view = (s.table.lookup name).map view := by
  have same := congrArg (Option.map view) (keeps.entries name)
  rw [Option.map_map, Option.map_map] at same
  have views : view ∘ Entry.plain = view := funext blind
  rwa [views] at same

theorem type_eq (keeps : Keeps s s') (name : String) :
    (s'.table.lookup name).bind Entry.type? = (s.table.lookup name).bind Entry.type? := by
  have found : ∀ entry : Option Entry,
      entry.bind Entry.type? = (entry.map Entry.type?).getD none := by
    intro entry
    cases entry <;> rfl
  rw [found, found, keeps.lookup_map Entry.type? (fun _ => rfl)]

end WalkState.Keeps

namespace Walk

variable {α β : Type}

/-- The walk does no more than reading names and adding to the trace. -/
def Reads (walk : Walk α) : Prop := ∀ s : WalkState, s.Keeps (walk.after s)

theorem reads_pure (a : α) : Reads (pure a : Walk α) := WalkState.Keeps.refl

theorem reads_bind {walk : Walk α} {next : α → Walk β} (first : Reads walk)
    (second : ∀ a, Reads (next a)) : Reads (walk >>= next) := by
  intro s
  exact (first s).trans (second _ _)

theorem reads_note (event : WalkEvent) : Reads (note event) := by
  intro s
  exact .noted s event

theorem reads_report (token : Token) (problem : SemanticProblem) : Reads (report token problem) :=
  reads_note _

theorem reads_table : Reads table := WalkState.Keeps.refl

theorem reads_lookup (name : String) : Reads (lookup name) := WalkState.Keeps.refl

theorem reads_mark_used (name : String) : Reads (markUsed name) := by
  intro s
  exact .used s name

theorem reads_compare (expected : Option ScalarType) (actual : Operand) (token : Token) :
    Reads (compare expected actual token) := by
  unfold compare
  cases expected with
  | none => exact reads_pure _
  | some type =>
      by_cases fits : type.accepts actual
      · simp only [fits, if_true]
        exact reads_pure _
      · simp only [fits]
        exact reads_report _ _

theorem reads_give_boolean (expected : Option ScalarType) (op : Token) :
    Reads (giveBoolean expected op) := by
  unfold giveBoolean
  split
  · exact reads_pure _
  · exact reads_pure _
  · exact reads_report _ _

theorem reads_free_type (operands : List Expr) : Reads (freeType operands) := WalkState.Keeps.refl

theorem after_free (op : Token) (operands : List Expr) (s : WalkState) :
    (if op.kind = .divide then pure .real else freeType operands : Walk ScalarType).after s = s := by
  split
  · rfl
  · rfl

theorem reads_give_number (expected : Option ScalarType) (op : Token) {free : Walk ScalarType}
    (reads : Reads free) : Reads (giveNumber expected op free) := by
  unfold giveNumber
  split
  · exact reads_bind (reads_report _ _) fun _ => reads_pure _
  · exact reads_pure _
  · exact reads

theorem reads_read_name (token : Token) : Reads (readName token) := by
  have used : ∀ entry : Entry,
      Reads (do markUsed token.lexeme; pure (some entry.meaning) : Walk (Option Meaning)) :=
    fun _ => reads_bind (reads_mark_used _) fun _ => reads_pure _
  unfold readName
  apply reads_bind (reads_lookup _)
  intro found
  cases found with
  | none => exact reads_bind (reads_report _ _) fun _ => reads_pure _
  | some entry =>
      apply reads_bind reads_table
      intro table
      split
      · exact reads_bind (reads_report _ _) fun _ => used entry
      · exact used entry

theorem reads_check_arity (token : Token) (supplied : Nat) (params : List ScalarType) :
    Reads (checkArity token supplied params) := by
  unfold checkArity
  apply reads_bind (reads_mark_used _)
  intro _
  split
  · exact reads_report _ _
  · split
    · exact reads_report _ _
    · exact reads_pure _

theorem reads_check_callee (token : Token) (supplied : Nat) :
    Reads (checkCallee token supplied) := by
  unfold checkCallee
  apply reads_bind (reads_read_name token)
  intro found
  split
  · exact reads_pure _
  · exact reads_bind (reads_report _ _) fun _ =>
      reads_bind (reads_check_arity _ _ _) fun _ => reads_pure _
  · exact reads_bind (reads_report _ _) fun _ => reads_pure _
  · exact reads_bind (reads_report _ _) fun _ => reads_pure _

theorem reads_check_name (expected : Option ScalarType) (token : Token) :
    Reads (checkName expected token) := by
  unfold checkName
  apply reads_bind (reads_read_name token)
  intro found
  split
  · exact reads_pure _
  · exact reads_bind (reads_report _ _) fun _ =>
      reads_bind (reads_check_arity _ _ _) fun _ => reads_pure _
  · exact reads_bind (reads_report _ _) fun _ => reads_pure _
  · exact reads_bind (reads_compare _ _ _) fun _ => reads_pure _

mutual

theorem reads_expression (expected : Option ScalarType) :
    (expr : Expr) → Reads (expression expected expr)
  | .literal token => by
      unfold expression
      split
      · exact reads_bind (reads_compare _ _ _) fun _ => reads_pure _
      · exact reads_pure _
  | .name token resolved => by
      unfold expression
      exact reads_bind (reads_check_name _ _) fun _ => reads_pure _
  | .call token args resolved => by
      unfold expression
      exact reads_bind (reads_check_callee _ _) fun params =>
        reads_bind (reads_arguments params args) fun _ => reads_pure _
  | .unary op operand => by
      unfold expression
      split
      · exact reads_bind (reads_expression _ operand) fun _ => reads_pure _
      · exact reads_bind (reads_give_boolean _ _) fun _ =>
          reads_bind (reads_expression _ operand) fun _ => reads_pure _
      · exact reads_bind (reads_give_number _ _ (reads_free_type _)) fun type =>
          reads_bind (reads_expression _ operand) fun _ => reads_pure _
  | .binary op left right resolved => by
      unfold expression
      split
      · exact reads_bind (reads_give_boolean _ _) fun _ =>
          reads_bind (reads_expression _ left) fun _ =>
            reads_bind (reads_expression _ right) fun _ => reads_pure _
      · have free : Reads (if op.kind = .divide then pure .real else freeType [left, right]) := by
          intro s
          rw [after_free]
          exact .refl s
        exact reads_bind (reads_give_number _ _ free) fun type =>
          reads_bind (reads_note _) fun _ =>
            reads_bind (reads_expression _ left) fun _ =>
              reads_bind (reads_expression _ right) fun _ => reads_pure _

theorem reads_arguments (params : List ScalarType) :
    (args : List Expr) → Reads (arguments params args)
  | [] => reads_pure _
  | first :: others => by
      unfold arguments
      exact reads_bind (reads_expression _ first) fun _ =>
        reads_bind (reads_arguments _ others) fun _ => reads_pure _

end

end Walk

end TinyPascal
