import TinyPascal.Parser.Program
import TinyPascal.Proofs.Scoping.Findings

/-!
# Names are scoped lexically

The stack of scopes gives every name the meaning that the itinerary gives it: that of its first
declaration in the innermost scope around the occurrence that has one further up. So names
without a declaration and declarations without effect are reported exactly where they stand, and
a name that is read gets the type of the variable it stands for.
-/

namespace TinyPascal

set_option autoImplicit false

namespace Naming

def prior : Naming → List (Option ScalarType)
  | mention how _ => how.resolved?.toList
  | _ => []

theorem prior_declare (declared : List Declared) :
    (declared.map declare).flatMap prior = [] := by
  simp [List.flatMap_map, prior]

end Naming

namespace Stop

open Stops

def prior (stop : Stop) : List (Option ScalarType) :=
  match stop.act with
  | .naming naming => naming.prior
  | _ => []

/-- The type left at the node of a call in a fresh tree: that of the variable which a name
without arguments stands for in an expression, and none at all other calls. -/
def settledType (past : Stops) (stop : Stop) : List (Option ScalarType) :=
  match stop.act with
  | .naming (.mention (.operand _) token) =>
      [(resolve past stop.scope token.lexeme).bind Binding.type?]
  | .naming (.mention (.applied _ _) _) => [none]
  | .naming (.mention (.callee _ _) _) => [none]
  | _ => []

theorem call_type_of_fresh {past : Stops} {stop : Stop} (fresh : ∀ type ∈ stop.prior, type = none) :
    stop.callType past = stop.settledType past := by
  rcases stop with ⟨scope, act⟩
  cases act with
  | naming naming =>
      cases naming with
      | mention how token =>
          cases how with
          | operand resolved =>
              have empty : resolved = none := fresh resolved (List.mem_singleton.mpr rfl)
              simp [callType, settledType, empty]
          | applied supplied resolved =>
              have empty : resolved = none := fresh resolved (List.mem_singleton.mpr rfl)
              simp [callType, settledType, Mention.resolved?, empty]
          | callee supplied resolved =>
              have empty : resolved = none := fresh resolved (List.mem_singleton.mpr rfl)
              simp [callType, settledType, Mention.resolved?, empty]
          | target op => rfl
          | control op => rfl
      | declare declared => rfl
      | assigned token => rfl
  | enter => rfl
  | leave => rfl
  | finish => rfl

end Stop

theorem Stops.prior_within (scope : Address) (namings : List Naming) :
    (within scope namings).flatMap Stop.prior = namings.flatMap Naming.prior := by
  simp [within, List.flatMap_map, Stop.prior]

mutual

theorem Expr.prior_namings : (expr : Expr) → expr.namings.flatMap Naming.prior = expr.callTypes
  | .literal token => rfl
  | .name token resolved => rfl
  | .call token args resolved => by
      rw [namings, callTypes, List.flatMap_cons, prior_namings_all args]
      rfl
  | .unary op operand => prior_namings operand
  | .binary op left right resolved => by
      rw [namings, callTypes, List.flatMap_append, prior_namings left, prior_namings right]

theorem Expr.prior_namings_all :
    (args : List Expr) → (namingsAll args).flatMap Naming.prior = callTypesAll args
  | [] => rfl
  | first :: others => by
      rw [namingsAll, callTypesAll, List.flatMap_append, prior_namings first,
        prior_namings_all others]

end

theorem Command.prior_assignment {how : Token → Mention} (bare : ∀ op, (how op).resolved? = none)
    (node : Assignment) :
    (assignmentNamings how node).flatMap Naming.prior = node.value.callTypes := by
  simp [assignmentNamings, Naming.prior, bare, Expr.prior_namings]

mutual

theorem Command.prior_namings :
    (node : Command) → node.namings.flatMap Naming.prior = node.callTypes
  | .assign node => by
      rw [namings, callTypes, prior_assignment fun _ => rfl]
  | .call token args resolved => by
      rw [namings, callTypes, List.flatMap_cons, Expr.prior_namings_all]
      rfl
  | .ifThen keyword condition branch => by
      rw [namings, callTypes, List.flatMap_append, Expr.prior_namings, prior_namings branch]
  | .ifElse keyword condition branch otherwise => by
      rw [namings, callTypes, List.flatMap_append, List.flatMap_append, Expr.prior_namings,
        prior_namings branch, prior_namings otherwise]
  | .whileDo keyword condition body => by
      rw [namings, callTypes, List.flatMap_append, Expr.prior_namings, prior_namings body]
  | .forDo keyword start direction bound body => by
      rw [namings, callTypes, List.flatMap_append, List.flatMap_append,
        prior_assignment fun _ => rfl, Expr.prior_namings, prior_namings body]
  | .block opening body => prior_namings_all body

theorem Command.prior_namings_all :
    (nodes : List Command) → (namingsAll nodes).flatMap Naming.prior = callTypesAll nodes
  | [] => rfl
  | first :: others => by
      rw [namingsAll, callTypesAll, List.flatMap_append, prior_namings first,
        prior_namings_all others]

end

mutual

theorem Program.prior_procedure_stops (scope : Address) (index : Nat) :
    (program : Program) →
      (program.procedureStops scope index).flatMap Stop.prior = program.callTypes
  | ⟨keyword, name, params, locals, nested, opening, body⟩ => by
      simp [procedureStops, callTypes, Stops.enclosed, Stops.prior_within, Naming.prior_declare,
        prior_procedures_stops, Command.prior_namings_all, Stop.prior]

theorem Program.prior_procedures_stops (scope : Address) (index : Nat) :
    (programs : List Program) →
      (proceduresStops scope index programs).flatMap Stop.prior = callTypesAll programs
  | [] => rfl
  | first :: others => by
      rw [proceduresStops, callTypesAll, List.flatMap_append,
        prior_procedure_stops scope index first, prior_procedures_stops scope (index + 1) others]

end

theorem Program.prior_itinerary (program : Program) :
    program.itinerary.flatMap Stop.prior = program.callTypes := by
  rcases program with ⟨keyword, name, params, locals, nested, opening, body⟩
  have named : (Stops.within [] ((Declared.program name :: Declared.ofVariables .var locals).map
      Naming.declare)).flatMap Stop.prior = [] := by
    rw [Stops.prior_within, Naming.prior_declare]
  simp only [itinerary, callTypes, List.flatMap_append, named, prior_procedures_stops,
    Stops.prior_within, Command.prior_namings_all]
  simp [Stop.prior]

theorem Analysis.call_types_of_fresh {program : Program}
    (fresh : ∀ type ∈ program.callTypes, type = none) :
    (ofProgram program).program.callTypes =
      (Stops.withPast [] program.itinerary).flatMap fun (past, stop) => stop.settledType past := by
  rw [(Stops.run_program program).types]
  apply List.flatMap_congr
  intro ⟨past, stop⟩ member
  apply Stop.call_type_of_fresh
  intro type held
  apply fresh
  rw [← program.prior_itinerary, List.mem_flatMap]
  rcases Stops.mem_with_past.mp member with ⟨before, behind, same, _⟩
  exact ⟨stop, by rw [same]; simp, held⟩

namespace Walk

/-- The checker resolves names as the itinerary says. The walk over a program gets to everything
that happens to a name, and looks up there the declaration that the name stands for. A name is
reported as not declared exactly where it stands for nothing, and a declaration as not effective
exactly where its name is taken in its scope. Where nothing was filled in before, each call gets
the type of the variable it stands for, and no type if it is not a variable in an expression. -/
theorem names_are_scoped_lexically (program : Program) :
    (∀ before scope naming behind,
      program.itinerary = before ++ ⟨scope, .naming naming⟩ :: behind →
        (∃ s expected types more, Stops.Reaches before types .start s ∧
          Stops.Reaches behind more ((naming.walk expected).after s)
            ((Walk.program program).after .start)) ∧
        ∀ s types, Stops.Reaches before types .start s →
          s.table.lookup naming.name =
            (Stops.resolve before scope naming.name).map (Stops.now before)) ∧
    (Analysis.ofProgram program).diagnostics.of .undeclared =
      (Stops.withPast [] program.itinerary).flatMap (fun (past, stop) => stop.undeclared past) ∧
    (Analysis.ofProgram program).diagnostics.of .redeclared =
      (Stops.withPast [] program.itinerary).flatMap (fun (past, stop) => stop.redeclared past) ∧
    ((∀ type ∈ program.callTypes, type = none) →
      (Analysis.ofProgram program).program.callTypes =
        (Stops.withPast [] program.itinerary).flatMap fun (past, stop) =>
          stop.settledType past) := by
  constructor
  · intro before scope naming behind parts
    constructor
    · exact Stops.reaches_stop parts
    · intro s types reaches
      rcases reaches.arrived parts with ⟨between, next, stands, move⟩
      cases move
      exact stands.lookup naming.name
  · exact ⟨Analysis.findings_eq program .undeclared, Analysis.findings_eq program .redeclared,
      Analysis.call_types_of_fresh⟩

/-- A variable of a procedure hides that of the program, and only inside the procedure. -/
theorem inner_variable_hides_outer_one :
    ∃ (program : Program) (before behind : Stops) (naming : Naming) (s : WalkState),
      program.itinerary = before ++ ⟨[0], .naming naming⟩ :: behind ∧ naming.name = "x" ∧
        (s.table.lookup "x").map Entry.meaning = some (.variableOf .real) ∧
        (Analysis.ofProgram program).program.callTypes = [none, some .integer] ∧
        ((Analysis.ofProgram program).diagnostics.of .undeclared).messages =
          ["Variable 'y' never declared."] := by
  let program := (Parse.ofText ("program p; var x: integer; procedure q; var x: real; " ++
    "begin x := y end; begin x := x end.")).program
  let naming := Naming.assigned ⟨.ident, "x", ⟨1, 60, 59⟩⟩
  have parts : program.itinerary = program.itinerary.take 7 ++
      ⟨[0], .naming naming⟩ :: program.itinerary.drop 8 := by decide +kernel
  have fresh : ∀ type ∈ program.callTypes, type = none := by decide +kernel
  have meaning : (Stops.resolve (program.itinerary.take 7) [0] "x").map
      (fun binding => binding.declared.meaning) = some (.variableOf .real) := by decide +kernel
  rcases names_are_scoped_lexically program with ⟨occurrences, undeclared, _, types⟩
  rcases occurrences _ _ naming _ parts with ⟨⟨s, _, before, _, reaches, _⟩, found⟩
  have entry : s.table.lookup "x" = _ := found s before reaches
  have inner : (s.table.lookup "x").map Entry.meaning = some (.variableOf .real) := by
    rw [entry, Option.map_map]
    exact meaning
  have settled : (Analysis.ofProgram program).program.callTypes = [none, some .integer] := by
    rw [types fresh]
    decide +kernel
  have reported : ((Analysis.ofProgram program).diagnostics.of .undeclared).messages =
      ["Variable 'y' never declared."] := by
    rw [undeclared]
    decide +kernel
  exact ⟨program, _, _, naming, s, parts, rfl, inner, settled, reported⟩

end Walk

end TinyPascal
