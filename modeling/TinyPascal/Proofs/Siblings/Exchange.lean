import TinyPascal.Proofs.Recovery.Nested
import TinyPascal.Proofs.Siblings.Neighbours

/-!
# Independent procedures may change places

Two procedures side by side, at any depth of a program, that do not mention each other may be
exchanged. Everything before them is checked as it was, and everything behind them starts with a
table that differs only in the order of names.
-/

namespace TinyPascal

set_option autoImplicit false

def exchange {α : Type} : Nat → List α → List α
  | 0, first :: second :: others => second :: first :: others
  | index + 1, first :: others => first :: exchange index others
  | _, elements => elements

/-- The program with two neighbours among its procedures exchanged. -/
def Program.exchanged (index : Nat) (program : Program) : Program :=
  { program with procedures := exchange index program.procedures }

namespace Program

/-- What an exchange further in changes among the procedures. -/
def exchangedWithin (index : Nat) : List Nat → List Program → List Program
  | [] => exchange index
  | i :: path => fun procedures => procedures.modify i (modifyAt (exchanged index) path)

theorem modify_at_exchanged (index : Nat) (path : List Nat) : modifyAt (exchanged index) path =
    fun program => { program with procedures := exchangedWithin index path program.procedures } := by
  funext program
  cases path <;> rfl

end Program

namespace Walk

variable {α β γ δ : Type}

/-- Started with alike tables, the walks end with alike tables, and what the second one brings
back is what `f` makes of the first one's. -/
def AlikeBy (f : α → β) (walk : Walk α) (other : Walk β) : Prop :=
  ∀ s t : WalkState, s.Alike t →
    other.value t = f (walk.value s) ∧ (walk.after s).Alike (other.after t)

theorem alike_by_bind {f : α → β} {g : γ → δ} {walk : Walk α} {other : Walk β} {next : α → Walk γ}
    {next' : β → Walk δ} (first : AlikeBy f walk other)
    (second : ∀ a, AlikeBy g (next a) (next' (f a))) :
    AlikeBy g (walk >>= next) (other >>= next') := by
  intro s t alike
  rcases first s t alike with ⟨value, behind⟩
  rw [after_bind, after_bind, value_bind, value_bind, value]
  exact second _ _ _ behind

theorem alike_by_pure {f : α → β} {a : α} {b : β} (same : b = f a) :
    AlikeBy f (pure a) (pure b) := by
  intro s t alike
  exact ⟨same, alike⟩

theorem alike_enter_scope : AlikeBy id enterScope enterScope := by
  intro s t alike
  exact ⟨rfl, alike.entered⟩

theorem alike_leave_scope : AlikeBy id leaveScope leaveScope := by
  intro s t alike
  exact ⟨rfl, alike.left⟩

theorem alike_declare {kind : Token → ScalarType → Declared} {entryOf : Token → ScalarType → Entry}
    (each : ∀ token type, (kind token type).walk =
      define token (entryOf token type) (.redeclaredVariable token.lexeme))
    (tokenOf : ∀ token type, (kind token type).token = token) (vars : Option Variables) :
    AlikeBy id (declare entryOf vars) (declare entryOf vars) := by
  have agree : Kinship.alike.Agree 0 (declare entryOf vars) (declare entryOf vars) :=
    Kinship.agree_variables each tokenOf (fun _ _ => trivial) (fun _ _ => trivial)
  exact agree

theorem alike_declare_procedure (name : Token) (params : Option Variables) :
    AlikeBy id (declareProcedure name params) (declareProcedure name params) := by
  have agree : Kinship.alike.Agree 0 (declareProcedure name params)
      (declareProcedure name params) :=
    Kinship.agree_declare_procedure (fun _ _ => trivial) (fun _ _ => trivial)
  exact agree

theorem alike_procedure (node : Program) : AlikeBy id (procedure node) (procedure node) := by
  have agree : Kinship.alike.Agree 0 (procedure node) (procedure node) :=
    Kinship.agree_procedure_of_contents
      (Kinship.agree_contents node (fun _ _ => trivial) (fun _ _ => trivial) 1)
      (fun _ _ => trivial) (fun _ _ => trivial)
  exact agree

theorem alike_procedures (nodes : List Program) :
    AlikeBy id (procedures nodes) (procedures nodes) := by
  have agree : Kinship.alike.Agree 0 (procedures nodes) (procedures nodes) :=
    Kinship.agree_procedures nodes (fun _ _ => trivial) (fun _ _ => trivial) 0
  exact agree

theorem alike_commands (nodes : List Command) : AlikeBy id (commands nodes) (commands nodes) := by
  have agree : Kinship.alike.Agree 0 (commands nodes) (commands nodes) :=
    Kinship.agree_commands nodes (fun _ _ => trivial) (fun _ _ => trivial)
  exact agree

section Lists

variable {first second child : Program} {nodes : List Program} {f : Program → Program}

theorem value_procedures_cons (first : Program) (others : List Program) (s : WalkState) :
    (procedures (first :: others)).value s =
      (procedure first).value s :: (procedures others).value ((procedure first).after s) := by
  rw [procedures]
  rfl

theorem after_procedures_cons (first : Program) (others : List Program) (s : WalkState) :
    (procedures (first :: others)).after s =
      (procedures others).after ((procedure first).after s) := by
  rw [procedures]
  rfl

theorem alike_by_cons {other : Program} {others others' : List Program}
    {g : List Program → List Program} (head : AlikeBy f (procedure first) (procedure other))
    (tail : AlikeBy g (procedures others) (procedures others')) (s t : WalkState)
    (alike : s.Alike t) : (procedures (other :: others')).value t =
        f ((procedure first).value s) :: g ((procedures others).value ((procedure first).after s)) ∧
      ((procedures (first :: others)).after s).Alike ((procedures (other :: others')).after t) := by
  rcases head s t alike with ⟨value, behind⟩
  rcases tail _ _ behind with ⟨values, last⟩
  rw [value_procedures_cons, value, values, after_procedures_cons, after_procedures_cons]
  exact ⟨rfl, last⟩

/-- Neighbours in a row of procedures change places. What is behind them starts with a table that
is alike. -/
theorem alike_by_exchange (independent : first.Independent second) {index : Nat}
    (here : nodes[index]? = some first) (behind : nodes[index + 1]? = some second) :
    AlikeBy (exchange index) (procedures nodes) (procedures (exchange index nodes)) := by
  induction index generalizing nodes with
  | zero =>
      rcases nodes with _ | ⟨head, _ | ⟨next, others⟩⟩
      · cases here
      · cases behind
      · cases here
        cases behind
        intro s t alike
        rcases neighbours_alike independent s with ⟨value, value', crossed⟩
        rcases alike_procedure second s t alike with ⟨same, between⟩
        rcases alike_procedure first _ _ between with ⟨same', reached⟩
        rcases alike_procedures others _ _ (crossed.trans reached) with ⟨rest, last⟩
        simp only [exchange, value_procedures_cons, after_procedures_cons]
        rw [same, same', rest, value, value']
        exact ⟨rfl, last⟩
  | succ index induction =>
      cases nodes with
      | nil => cases here
      | cons head others =>
          intro s t alike
          rw [value_procedures_cons head others s]
          exact alike_by_cons (alike_procedure head) (induction here behind) s t alike

theorem alike_by_modify {i : Nat} (found : nodes[i]? = some child)
    (inner : AlikeBy f (procedure child) (procedure (f child))) :
    AlikeBy (fun nodes => nodes.modify i f) (procedures nodes) (procedures (nodes.modify i f)) := by
  induction i generalizing nodes with
  | zero =>
      cases nodes with
      | nil => cases found
      | cons head others =>
          cases found
          intro s t alike
          rw [value_procedures_cons child others s]
          exact alike_by_cons inner (alike_procedures others) s t alike
  | succ i induction =>
      cases nodes with
      | nil => cases found
      | cons head others =>
          intro s t alike
          rw [value_procedures_cons head others s]
          exact alike_by_cons (alike_procedure head) (induction found) s t alike

end Lists

section Nesting

variable {node around first second : Program} {index : Nat}

/-- A change among the procedures, seen from the variables before them to the body behind. -/
theorem alike_by_globals {g : List Program → List Program}
    (nested : AlikeBy g (procedures node.procedures) (procedures (g node.procedures))) :
    AlikeBy (Prod.map g id) (globals node)
      (globals { node with procedures := g node.procedures }) := by
  apply alike_by_bind (alike_declare var_walk (fun _ _ => rfl) node.locals)
  intro _
  apply alike_by_bind nested
  intro values
  apply alike_by_bind (alike_commands node.body)
  intro body
  exact alike_by_pure rfl

theorem alike_by_procedure {g : List Program → List Program}
    (nested : AlikeBy g (procedures node.procedures) (procedures (g node.procedures))) :
    AlikeBy (fun node => { node with procedures := g node.procedures }) (procedure node)
      (procedure { node with procedures := g node.procedures }) := by
  rw [procedure_eq, procedure_eq]
  apply alike_by_bind (alike_declare_procedure node.name node.params)
  intro _
  apply alike_by_bind alike_enter_scope
  intro _
  have checked : AlikeBy (Prod.map g id) (contents node)
      (contents { node with procedures := g node.procedures }) := by
    apply alike_by_bind (alike_declare param_walk (fun _ _ => rfl) node.params)
    intro _
    exact alike_by_globals nested
  apply alike_by_bind checked
  intro values
  apply alike_by_bind alike_leave_scope
  intro _
  exact alike_by_pure rfl

theorem alike_by_exchanged_within (path : List Nat) (leads : node.at? path = some around)
    (here : around.procedures[index]? = some first)
    (behind : around.procedures[index + 1]? = some second)
    (independent : first.Independent second) :
    AlikeBy (Program.exchangedWithin index path) (procedures node.procedures)
      (procedures (Program.exchangedWithin index path node.procedures)) := by
  induction path generalizing node with
  | nil =>
      cases leads
      exact alike_by_exchange independent here behind
  | cons i path induction =>
      rcases Option.bind_eq_some_iff.mp leads with ⟨child, found, further⟩
      apply alike_by_modify found
      rw [Program.modify_at_exchanged]
      exact alike_by_procedure (induction further)

end Nesting

end Walk

namespace Analysis

open Walk

/-- Two procedures side by side, of different names and without mention of each other, may change
places. The analysis then reports the same in another order, and fills in the same types. -/
theorem independent_procedures_may_change_places (program : Program) (path : List Nat)
    (index : Nat) {around first second : Program} (leads : program.at? path = some around)
    (here : around.procedures[index]? = some first)
    (behind : around.procedures[index + 1]? = some second)
    (different : first.name.lexeme ≠ second.name.lexeme)
    (apart : ∀ naming ∈ second.innerNamings, naming.name ≠ first.name.lexeme)
    (apart' : ∀ naming ∈ first.innerNamings, naming.name ≠ second.name.lexeme) :
    (ofProgram (program.modifyAt (Program.exchanged index) path)).diagnostics.Perm
        (ofProgram program).diagnostics ∧
      (ofProgram (program.modifyAt (Program.exchanged index) path)).program =
        (ofProgram program).program.modifyAt (Program.exchanged index) path := by
  have independent : first.Independent second := by
    constructor
    · exact different
    · intro mentioned
      rcases mentioned with ⟨naming, member, same⟩
      exact apart naming member same
    · intro mentioned
      rcases mentioned with ⟨naming, member, same⟩
      exact apart' naming member same
  have nested := alike_by_exchanged_within path leads here behind independent
  rcases alike_by_globals nested _ _ (.refl ((Declared.program program.name).walk.after .start)) with
    ⟨values, alike⟩
  have last := alike.reported_unused alike.table.global
  rw [Program.modify_at_exchanged]
  constructor
  · exact last.reports
  · exact congrArg (fun checked => { program with procedures := checked.1, body := checked.2 }) values

/-- Both procedures assign to a variable around them, one of them a value of the wrong type. -/
theorem writers_change_places :
    ∃ (program around first second : Program),
      program = (Parse.ofText ("program a; var x: integer; procedure p; begin x := true end; " ++
        "procedure q; begin x := 1 end; begin end.")).program ∧
      program.at? [] = some around ∧ around.procedures[0]? = some first ∧
      around.procedures[1]? = some second ∧ first.name.lexeme = "p" ∧ second.name.lexeme = "q" ∧
      (ofProgram program).diagnostics.length = 3 ∧
      (ofProgram (program.modifyAt (Program.exchanged 0) [])).diagnostics.Perm
        (ofProgram program).diagnostics ∧
      (ofProgram (program.modifyAt (Program.exchanged 0) [])).program =
        (ofProgram program).program.modifyAt (Program.exchanged 0) [] := by
  generalize same : (Parse.ofText ("program a; var x: integer; procedure p; begin x := true end; " ++
    "procedure q; begin x := 1 end; begin end.")).program = program
  have facts : program.procedures.map (fun node => node.name.lexeme) = ["p", "q"] ∧
      program.procedures.map (fun node => node.innerNamings.map Naming.name) =
        [["x", "x"], ["x", "x"]] ∧ (ofProgram program).diagnostics.length = 3 := by
    rw [← same]
    decide +kernel
  rcases facts with ⟨names, mentioned, three⟩
  rcases List.map_eq_cons_iff.mp names with ⟨first, others, listed, firstName, rest⟩
  rcases List.map_eq_singleton_iff.mp rest with ⟨second, alone, secondName⟩
  rw [listed, alone, List.map_cons, List.map_singleton, List.cons.injEq,
    List.cons.injEq] at mentioned
  have here : program.procedures[0]? = some first := by rw [listed]; rfl
  have behind : program.procedures[1]? = some second := by rw [listed, alone]; rfl
  have inside : ∀ node : Program, node.innerNamings.map Naming.name = ["x", "x"] →
      ∀ naming ∈ node.innerNamings, naming.name = "x" := by
    intro node all naming member
    have named := List.mem_map_of_mem (f := Naming.name) member
    rw [all] at named
    simpa using named
  have moved := independent_procedures_may_change_places program [] 0 rfl here behind
    (by rw [firstName, secondName]; decide)
    (fun naming member => by rw [inside second mentioned.2.1 naming member, firstName]; decide)
    (fun naming member => by rw [inside first mentioned.1 naming member, secondName]; decide)
  exact ⟨program, program, first, second, rfl, rfl, here, behind, firstName, secondName, three,
    moved⟩

end Analysis

end TinyPascal
