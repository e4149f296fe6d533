import TinyPascal.Proofs.Walk.Kinship

/-!
# Two walks over procedures

A procedure declares its own name outside, and then opens a scope for its contents. Two walks
over the same procedures, started in kindred states, end in kindred states.
-/

namespace TinyPascal

set_option autoImplicit false

/-- Names are declared one by one. One whose type is no type is passed over. -/
theorem Walk.declare_eq {kind : Token → ScalarType → Declared}
    {entryOf : Token → ScalarType → Entry}
    (each : ∀ token type, (kind token type).walk =
      define token (entryOf token type) (.redeclaredVariable token.lexeme))
    (vars : Option Variables) :
    declare entryOf vars = (Declared.ofVariables kind vars).forM Declared.walk := by
  unfold Declared.ofVariables declare
  induction (vars.map Variables.entries).getD [] with
  | nil => rfl
  | cons pair entries induction =>
      rcases pair with ⟨name, typeToken⟩
      rw [List.forM, induction]
      cases isType : ScalarType.ofKind? typeToken.kind with
      | none =>
          simp only [List.filterMap_cons, isType, Option.map_none]
          rfl
      | some type =>
          simp only [List.filterMap_cons, isType, Option.map_some]
          rw [List.forM, each]

namespace Walk

variable {token : Token} {entry : Entry} {problem : SemanticProblem} {s : WalkState}

theorem after_define_of_taken (taken : s.table.current.contains token.lexeme = true) :
    (define token entry problem).after s =
      { s with trace := .reported (finding token problem) :: s.trace } := by
  unfold define
  rw [after_bind, value_table, after_table, SymbolTable.define_of_taken taken]
  rfl

theorem after_define_of_free (free : s.table.current.contains token.lexeme = false) :
    (define token entry problem).after s =
      { s with table := (s.table.define token.lexeme entry).2 } := by
  have fresh : (s.table.define token.lexeme entry).1 = true := (SymbolTable.define_of_free free).1
  unfold define
  rw [after_bind, value_table, after_table]
  generalize s.table.define token.lexeme entry = result at fresh ⊢
  rcases result with ⟨isNew, table⟩
  cases fresh
  rfl

theorem after_enter_scope (s : WalkState) :
    enterScope.after s = ⟨s.table.push, .entered (s.table.depth + 1) :: s.trace⟩ := rfl

end Walk

namespace Declared

def clashEvents (declared : Declared) : List WalkEvent :=
  (declared.clash?.map fun problem => .reported (Walk.finding declared.token problem)).toList

variable {declared : Declared} {s : WalkState}

theorem after_walk_of_taken (taken : s.table.current.contains declared.name = true) :
    declared.walk.after s = { s with trace := declared.clashEvents ++ s.trace } := by
  cases declared with
  | program token =>
      exact congrArg (fun result => WalkState.mk result.2 s.trace)
        (SymbolTable.define_of_taken taken)
  | procedure token params => exact Walk.after_define_of_taken taken
  | param token type => exact Walk.after_define_of_taken taken
  | var token type => exact Walk.after_define_of_taken taken

theorem after_walk_of_free (free : s.table.current.contains declared.name = false) :
    declared.walk.after s =
      { s with table := (s.table.define declared.name declared.entry).2 } := by
  cases declared with
  | program token => rfl
  | procedure token params => exact Walk.after_define_of_free free
  | param token type => exact Walk.after_define_of_free free
  | var token type => exact Walk.after_define_of_free free

end Declared

theorem Declared.mem_tokens_of_variables {kind : Token → ScalarType → Declared}
    (tokenOf : ∀ token type, (kind token type).token = token) {vars : Option Variables} :
    ∀ declared ∈ ofVariables kind vars, declared.token ∈ Variables.tokens? vars := by
  intro declared member
  rcases List.mem_filterMap.mp member with ⟨⟨name, typeToken⟩, listed, same⟩
  rcases Option.map_eq_some_iff.mp same with ⟨type, _, made⟩
  rw [← made, tokenOf]
  exact Variables.mem_tokens_of_entry listed

namespace Program

mutual

/-- All that happens to names inside a procedure. Its own name is declared outside it. -/
def innerNamings : Program → List Naming
  | ⟨_, _, params, locals, nested, _, body⟩ =>
      (Declared.ofVariables .param params).map .declare ++
        ((Declared.ofVariables .var locals).map .declare ++
          (namingsAll nested ++ Command.namingsAll body))

/-- All that happens to names in some procedures, the declarations of their own names
included. -/
def namingsAll : List Program → List Naming
  | [] => []
  | ⟨keyword, name, params, locals, nested, opening, body⟩ :: others =>
      (Declared.ofProcedure name params).map .declare ++
        (innerNamings ⟨keyword, name, params, locals, nested, opening, body⟩ ++
          namingsAll others)

end

end Program

namespace Walk

/-- What is checked between the opening of the scope of a procedure and its end. -/
def contents (node : Program) : Walk (List Program × List Command) := do
  declare .ofParam node.params
  declare .ofVariable node.locals
  let nested ← procedures node.procedures
  return (nested, ← commands node.body)

def inside (node : Program) : Walk Program := do
  enterScope
  let checked ← contents node
  leaveScope
  return { node with procedures := checked.1, body := checked.2 }

theorem procedure_eq (node : Program) :
    procedure node = (do declareProcedure node.name node.params; inside node) := by
  cases node
  rw [procedure]
  rfl

/-- What is checked between the name of the program and its end. -/
def globals (node : Program) : Walk (List Program × List Command) := do
  declare .ofVariable node.locals
  let nested ← procedures node.procedures
  return (nested, ← commands node.body)

end Walk

namespace Kinship

open Walk

variable {k : Kinship} {depth : Nat}

theorem agree_inside {node : Program}
    (agree : k.Agree (depth + 1) (contents node) (contents node)) :
    k.Agree depth (inside node) (inside node) := by
  intro s t states
  rcases agree _ _ (k.enter states) with ⟨values, states⟩
  constructor
  · exact congrArg (fun checked => { node with procedures := checked.1, body := checked.2 }) values
  · exact k.leave states

theorem agree_declaring (declared : Declared) (placed : k.places declared.token)
    (known : k.names declared.name) : k.Agree depth declared.walk declared.walk := by
  intro s t states
  exact ⟨rfl, k.declare states placed known⟩

theorem agree_each {declareds : List Declared}
    (placed : ∀ declared ∈ declareds, k.places declared.token)
    (known : ∀ naming ∈ declareds.map Naming.declare, k.names naming.name) :
    k.Agree depth (declareds.forM Declared.walk) (declareds.forM Declared.walk) := by
  induction declareds with
  | nil => exact agree_pure ()
  | cons declared declareds induction =>
      rw [List.forall_mem_cons] at placed
      rw [List.map_cons, List.forall_mem_cons] at known
      rw [List.forM]
      apply agree_bind (agree_declaring declared placed.1 known.1)
      intro _
      exact induction placed.2 known.2

theorem agree_variables {kind : Token → ScalarType → Declared}
    {entryOf : Token → ScalarType → Entry}
    (each : ∀ token type, (kind token type).walk =
      define token (entryOf token type) (.redeclaredVariable token.lexeme))
    (tokenOf : ∀ token type, (kind token type).token = token) {vars : Option Variables}
    (placed : ∀ token ∈ Variables.tokens? vars, k.places token)
    (known : ∀ naming ∈ (Declared.ofVariables kind vars).map Naming.declare,
      k.names naming.name) :
    k.Agree depth (Walk.declare entryOf vars) (Walk.declare entryOf vars) := by
  rw [declare_eq each]
  apply agree_each _ known
  intro declared member
  exact placed _ (Declared.mem_tokens_of_variables tokenOf declared member)

theorem agree_declare_procedure {name : Token} {params : Option Variables}
    (placed : ∀ token ∈ name.present, k.places token)
    (known : ∀ naming ∈ (Declared.ofProcedure name params).map Naming.declare,
      k.names naming.name) :
    k.Agree depth (declareProcedure name params) (declareProcedure name params) := by
  unfold Declared.ofProcedure at known
  unfold declareProcedure
  by_cases unnamed : name.lexeme.isEmpty = true
  · rw [if_pos unnamed]
    exact agree_pure ()
  · rw [if_neg unnamed] at known ⊢
    have here : k.places name := by
      apply placed
      simp [Token.present, Token.hasText, unnamed]
    exact agree_declaring (.procedure name (paramTypes params)) here (known _ List.mem_cons_self)

theorem agree_procedure_of_contents {node : Program}
    (agree : k.Agree (depth + 1) (contents node) (contents node))
    (placed : ∀ token ∈ node.name.present, k.places token)
    (known : ∀ naming ∈ (Declared.ofProcedure node.name node.params).map Naming.declare,
      k.names naming.name) : k.Agree depth (procedure node) (procedure node) := by
  rw [procedure_eq]
  apply agree_bind (agree_declare_procedure placed known)
  intro _
  exact agree_inside agree

mutual

theorem agree_contents : (node : Program) →
    (∀ token ∈ node.tokensBy Token.present, k.places token) →
    (∀ naming ∈ node.innerNamings, k.names naming.name) →
    ∀ depth, k.Agree depth (contents node) (contents node)
  | ⟨keyword, name, params, locals, nested, opening, body⟩, placed, known, depth => by
      simp only [Program.tokensBy, List.forall_mem_append] at placed
      simp only [Program.innerNamings, List.forall_mem_append] at known
      rcases placed with ⟨_, _, placedParams, placedLocals, placedNested, _, placedBody⟩
      rcases known with ⟨knownParams, knownLocals, knownNested, knownBody⟩
      unfold contents
      apply agree_bind (agree_variables param_walk (fun _ _ => rfl) placedParams knownParams)
      intro _
      apply agree_bind (agree_variables var_walk (fun _ _ => rfl) placedLocals knownLocals)
      intro _
      apply agree_bind (agree_procedures nested placedNested knownNested depth)
      intro nested
      exact agree_map _ (agree_commands body placedBody knownBody)

theorem agree_procedures : (nodes : List Program) →
    (∀ token ∈ Program.tokensByAll Token.present nodes, k.places token) →
    (∀ naming ∈ Program.namingsAll nodes, k.names naming.name) →
    ∀ depth, k.Agree depth (procedures nodes) (procedures nodes)
  | [], _, _, _ => agree_pure _
  | ⟨keyword, name, params, locals, nested, opening, body⟩ :: others, placed, known, depth => by
      rw [Program.tokensByAll, List.forall_mem_append] at placed
      rw [Program.namingsAll, List.forall_mem_append, List.forall_mem_append] at known
      have first := agree_contents _ placed.1 known.2.1 (depth + 1)
      rw [Program.tokensBy, List.forall_mem_append, List.forall_mem_append] at placed
      rw [procedures]
      apply agree_bind (agree_procedure_of_contents first placed.1.2.1 known.1)
      intro checked
      exact agree_map _ (agree_procedures others placed.2 known.2.2 depth)

end

theorem agree_globals {node : Program}
    (placedLocals : ∀ token ∈ Variables.tokens? node.locals, k.places token)
    (knownLocals : ∀ naming ∈ (Declared.ofVariables .var node.locals).map Naming.declare,
      k.names naming.name)
    (placedNested : ∀ token ∈ Program.tokensByAll Token.present node.procedures, k.places token)
    (knownNested : ∀ naming ∈ Program.namingsAll node.procedures, k.names naming.name)
    (placedBody : ∀ token ∈ Command.tokensAll node.body, k.places token)
    (knownBody : ∀ naming ∈ Command.namingsAll node.body, k.names naming.name) :
    k.Agree depth (globals node) (globals node) := by
  unfold globals
  apply agree_bind (agree_variables var_walk (fun _ _ => rfl) placedLocals knownLocals)
  intro _
  apply agree_bind (agree_procedures node.procedures placedNested knownNested depth)
  intro nested
  exact agree_map _ (agree_commands node.body placedBody knownBody)

end Kinship

end TinyPascal
