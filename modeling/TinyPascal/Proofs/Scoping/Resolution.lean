import Mathlib.Data.List.Infix
import TinyPascal.Proofs.Scoping.Itinerary

/-!
# What a name stands for

A name stands for the first declaration of it in the innermost scope around the occurrence that
has one further up on the itinerary. From this alone follows which declarations a scope has
taken up, and which of them were used or assigned to.
-/

namespace TinyPascal

set_option autoImplicit false

namespace Naming

def token : Naming → Token
  | declare declared => declared.token
  | mention _ token => token
  | assigned token => token

def name (naming : Naming) : String := naming.token.lexeme

/-- Whether this uses a name of the given meaning. In an expression every name is used; a
command uses a variable by assigning to it and a procedure by calling it. -/
def uses : Naming → Meaning → Bool
  | declare _, _ => false
  | mention (.operand _) _, _ => true
  | mention (.applied _ _) _, _ => true
  | mention (.callee _ _) _, .procedureOn _ => true
  | mention _ _, _ => false
  | assigned _, .variableOf _ => true
  | assigned _, _ => false

/-- Whether this gives a value to a name of the given meaning. -/
def assigns : Naming → Meaning → Bool
  | assigned _, .variableOf _ => true
  | _, _ => false

end Naming

/-- A declaration together with the scope that has taken it up. -/
structure Binding where
  scope : Address
  declared : Declared
deriving DecidableEq, Repr

def Stop.declares? (scope : Address) (name : String) (stop : Stop) : Option Declared :=
  match stop.act with
  | .naming (.declare declared) =>
      if stop.scope = scope ∧ declared.name = name then some declared else none
  | _ => none

namespace Stops

def firstIn (stops : Stops) (scope : Address) (name : String) : Option Declared :=
  stops.findSome? (Stop.declares? scope name)

/-- What a name in `scope` stands for behind `past`: the innermost scope around it that has
declared the name is asked first, the global scope last. -/
def resolve (past : Stops) (scope : Address) (name : String) : Option Binding :=
  scope.tails.findSome? fun around => (firstIn past around name).map (Binding.mk around)

/-- Every stop together with all before it. -/
def withPast (past : Stops) : Stops → List (Stops × Stop)
  | [] => []
  | stop :: others => (past, stop) :: withPast (past ++ [stop]) others

end Stops

namespace Stop

open Stops

/-- The declaration that a stop adds to `scope`. One whose name is taken is refused. -/
def accepted? (scope : Address) (past : Stops) (stop : Stop) : Option Declared :=
  match stop.act with
  | .naming (.declare declared) =>
      if stop.scope = scope ∧ firstIn past scope declared.name = none then some declared else none
  | _ => none

/-- Whether what happens at a stop happens to `binding` and counts as `test` says. -/
def touches (test : Naming → Meaning → Bool) (binding : Binding) (past : Stops) (stop : Stop) :
    Bool :=
  match stop.act with
  | .naming naming =>
      resolve past stop.scope naming.name = some binding && test naming binding.declared.meaning
  | _ => false

end Stop

namespace Stops

/-- The declarations that a scope has taken up, in order. -/
def acceptedIn (stops : Stops) (scope : Address) : List Declared :=
  (withPast [] stops).filterMap fun (past, stop) => stop.accepted? scope past

/-- Whether something that counts as `test` says has happened to `binding`. -/
def touched (test : Naming → Meaning → Bool) (stops : Stops) (binding : Binding) : Bool :=
  (withPast [] stops).any fun (past, stop) => stop.touches test binding past

/-- The declarations of a scope that nothing on the itinerary uses. The name of the program
needs no use. -/
def unusedIn (stops : Stops) (scope : Address) : List Declared :=
  (acceptedIn stops scope).filter fun declared =>
    !declared.isProgram && !touched Naming.uses stops ⟨scope, declared⟩

variable {past stops others : Stops} {scope : Address} {name : String} {stop : Stop}

theorem with_past_append (past stops others : Stops) :
    withPast past (stops ++ others) = withPast past stops ++ withPast (past ++ stops) others := by
  induction stops generalizing past with
  | nil => simp [withPast]
  | cons first stops induction => simp [withPast, induction]

theorem mem_with_past {past earlier stops : Stops} {stop : Stop} :
    (earlier, stop) ∈ withPast past stops ↔
      ∃ before behind, stops = before ++ stop :: behind ∧ earlier = past ++ before := by
  induction stops generalizing past with
  | nil => simp [withPast]
  | cons first others induction =>
      rw [withPast, List.mem_cons, induction]
      constructor
      · intro found
        cases found with
        | inl here =>
            cases here
            exact ⟨[], others, rfl, by rw [List.append_nil]⟩
        | inr further =>
            rcases further with ⟨before, behind, same, past⟩
            exact ⟨first :: before, behind, by rw [same, List.cons_append], by rw [past]; simp⟩
      · intro found
        rcases found with ⟨before, behind, same, past⟩
        cases before with
        | nil =>
            cases same
            exact .inl (by rw [past, List.append_nil])
        | cons head before =>
            rw [List.cons_append, List.cons.injEq] at same
            exact .inr ⟨before, behind, same.2, by rw [past, same.1]; simp⟩

theorem first_in_append (stops others : Stops) (scope : Address) (name : String) :
    firstIn (stops ++ others) scope name =
      (firstIn stops scope name).or (firstIn others scope name) :=
  List.findSome?_append

theorem first_in_singleton (stop : Stop) (scope : Address) (name : String) :
    firstIn [stop] scope name = stop.declares? scope name := by
  simp [firstIn]

theorem accepted_in_concat (stops : Stops) (stop : Stop) (scope : Address) :
    acceptedIn (stops ++ [stop]) scope =
      acceptedIn stops scope ++ (stop.accepted? scope stops).toList := by
  rw [acceptedIn, with_past_append, List.filterMap_append]
  cases accepted : stop.accepted? scope stops <;> simp [acceptedIn, withPast, accepted]

theorem touched_concat (test : Naming → Meaning → Bool) (stops : Stops) (stop : Stop)
    (binding : Binding) :
    touched test (stops ++ [stop]) binding =
      (touched test stops binding || stop.touches test binding stops) := by
  simp [touched, with_past_append, withPast]

theorem declares?_eq_some {declared : Declared} :
    stop.declares? scope name = some declared ↔
      stop = ⟨scope, .naming (.declare declared)⟩ ∧ declared.name = name := by
  rcases stop with ⟨place, act⟩
  cases act with
  | naming naming =>
      cases naming with
      | declare here => grind [Stop.declares?]
      | mention how token => simp [Stop.declares?]
      | assigned token => simp [Stop.declares?]
  | enter => simp [Stop.declares?]
  | leave => simp [Stop.declares?]
  | finish => simp [Stop.declares?]

theorem accepted?_eq_some {declared : Declared} :
    stop.accepted? scope past = some declared ↔
      stop = ⟨scope, .naming (.declare declared)⟩ ∧ firstIn past scope declared.name = none := by
  rcases stop with ⟨place, act⟩
  cases act with
  | naming naming =>
      cases naming with
      | declare here => grind [Stop.accepted?]
      | mention how token => simp [Stop.accepted?]
      | assigned token => simp [Stop.accepted?]
  | enter => simp [Stop.accepted?]
  | leave => simp [Stop.accepted?]
  | finish => simp [Stop.accepted?]

theorem name_of_first_in {declared : Declared} (found : firstIn stops scope name = some declared) :
    declared.name = name := by
  rcases List.exists_of_findSome?_eq_some found with ⟨stop, _, declares⟩
  exact (declares?_eq_some.mp declares).2

theorem resolve_eq_some {binding : Binding} (found : resolve past scope name = some binding) :
    binding.scope <:+ scope ∧ firstIn past binding.scope name = some binding.declared := by
  rcases List.exists_of_findSome?_eq_some found with ⟨around, member, here⟩
  rw [Option.map_eq_some_iff] at here
  rcases here with ⟨declared, first, same⟩
  cases same
  exact ⟨(List.mem_tails _ _).mp member, first⟩

theorem mem_accepted_in (stops : Stops) (scope : Address) (declared : Declared) :
    declared ∈ acceptedIn stops scope ↔ firstIn stops scope declared.name = some declared := by
  induction stops using List.reverseRecOn with
  | nil => simp [acceptedIn, withPast, firstIn]
  | append_singleton stops stop induction =>
      rw [accepted_in_concat, List.mem_append, induction, first_in_append, first_in_singleton,
        Option.mem_toList, accepted?_eq_some]
      cases first : firstIn stops scope declared.name with
      | some earlier => simp
      | none => simp [declares?_eq_some]

theorem first_in_of_touched {test : Naming → Meaning → Bool} {binding : Binding}
    (happened : touched test stops binding = true) :
    firstIn stops binding.scope binding.declared.name = some binding.declared := by
  induction stops using List.reverseRecOn with
  | nil => simp [touched, withPast] at happened
  | append_singleton stops stop induction =>
      have found : firstIn stops binding.scope binding.declared.name = some binding.declared := by
        rw [touched_concat, Bool.or_eq_true] at happened
        cases happened with
        | inl earlier => exact induction earlier
        | inr here =>
            unfold Stop.touches at here
            split at here
            · rw [Bool.and_eq_true, decide_eq_true_eq] at here
              have first := (resolve_eq_some here.1).2
              rwa [name_of_first_in first]
            · cases here
      rw [first_in_append, found, Option.some_or]

end Stops

end TinyPascal
