import Mathlib.Data.List.Perm.Basic
import TinyPascal.Proofs.Scoping.Effects
import TinyPascal.Proofs.Walk.Contents

/-!
# What a procedure leaves behind in the scopes around it

Inside a procedure nothing is added to the scopes around it; their names are only marked as used
or as assigned to. Which of them are marked, and what is reported, depends on what the names inside
the procedure mean, and on nothing else that the scopes around it hold.
-/

namespace TinyPascal

set_option autoImplicit false

/-- A mark that a name gets. -/
inductive Touch where
  | used (name : String)
  | initialized (name : String)
deriving DecidableEq, Repr

namespace Touch

def name : Touch → String
  | used name | initialized name => name

def change : Touch → Entry → Entry
  | used _, entry => { entry with used := true }
  | initialized _, entry => { entry with initialized := true }

theorem meaning_change (touch : Touch) (entry : Entry) :
    (touch.change entry).meaning = entry.meaning := by
  cases touch <;> rfl

theorem change_comm (touch other : Touch) :
    other.change ∘ touch.change = touch.change ∘ other.change := by
  cases touch <;> cases other <;> rfl

end Touch

namespace Scope

theorem modify_first_append (change : Entry → Entry) (name : String) (own outer : List Scope) :
    modifyFirst change name (own ++ outer) =
      if own.any fun scope => scope.contains name then modifyFirst change name own ++ outer
      else own ++ modifyFirst change name outer := by
  induction own with
  | nil => rfl
  | cons scope own induction =>
      rw [List.cons_append, modifyFirst, modifyFirst, induction, List.any_cons]
      by_cases here : scope.contains name = true
      · simp [here]
      · by_cases further : (own.any fun scope => scope.contains name) = true
        · simp [here, further]
        · simp [here, further]

theorem modify_comm {name other : String} (different : name ≠ other) (change second : Entry → Entry)
    (scope : Scope) : (scope.modify change name).modify second other =
      (scope.modify second other).modify change name := by
  unfold modify
  rw [List.map_map, List.map_map]
  congr 1
  funext pair
  by_cases here : pair.1 = name
  · have apart : pair.1 ≠ other := fun there => different (here.symm.trans there)
    simp [here, different]
  · by_cases there : pair.1 = other
    · simp [there, Ne.symm different]
    · simp [here, there]

theorem modify_first_comm {name other : String} (different : name ≠ other)
    (change second : Entry → Entry) (scopes : List Scope) :
    modifyFirst second other (modifyFirst change name scopes) =
      modifyFirst change name (modifyFirst second other scopes) := by
  induction scopes with
  | nil => rfl
  | cons scope outer induction =>
      by_cases here : scope.contains name = true
      · by_cases there : scope.contains other = true
        · simp [modifyFirst, here, there, contains_modify, modify_comm different]
        · simp [modifyFirst, here, there, contains_modify]
      · by_cases there : scope.contains other = true
        · simp [modifyFirst, here, there, contains_modify]
        · simp [modifyFirst, here, there, induction]

end Scope

namespace SymbolTable

def touch (table : SymbolTable) (touch : Touch) : SymbolTable :=
  table.modify touch.name touch.change

def touchAll (table : SymbolTable) (touches : List Touch) : SymbolTable := touches.foldl touch table

/-- The table with further scopes opened. -/
def under (table : SymbolTable) (own : List Scope) : SymbolTable :=
  { table with inner := own ++ table.inner }

variable {table : SymbolTable} {own : List Scope} {name : String}

theorem touch_all_append (table : SymbolTable) (touches more : List Touch) :
    table.touchAll (touches ++ more) = (table.touchAll touches).touchAll more :=
  List.foldl_append

theorem scopes_touch (table : SymbolTable) (touch : Touch) : (table.touch touch).scopes =
    Scope.modifyFirst touch.change touch.name table.scopes :=
  scopes_modify touch.change table touch.name

theorem touch_comm (table : SymbolTable) (touch other : Touch) :
    (table.touch touch).touch other = (table.touch other).touch touch := by
  by_cases same : touch.name = other.name
  · unfold SymbolTable.touch
    rw [same, modify_modify, modify_modify, Touch.change_comm]
  · apply ext_scopes
    rw [scopes_touch, scopes_touch, scopes_touch, scopes_touch, Scope.modify_first_comm same]

theorem touch_all_comm (table : SymbolTable) (touches more : List Touch) :
    (table.touchAll touches).touchAll more = (table.touchAll more).touchAll touches := by
  rw [← touch_all_append, ← touch_all_append]
  have commutes : RightCommutative touch := ⟨touch_comm⟩
  exact List.Perm.foldl_eq List.perm_append_comm _

theorem touch_all_keeps {α : Type} (view : SymbolTable → α)
    (keeps : ∀ (table : SymbolTable) (touch : Touch), view (table.touch touch) = view table)
    (table : SymbolTable) (touches : List Touch) : view (table.touchAll touches) = view table := by
  induction touches generalizing table with
  | nil => rfl
  | cons first others induction => exact (induction (table.touch first)).trans (keeps table first)

theorem meaning_touch (table : SymbolTable) (touch : Touch) (name : String) :
    ((table.touch touch).lookup name).map Entry.meaning =
      (table.lookup name).map Entry.meaning := by
  unfold SymbolTable.touch
  rw [lookup_modify]
  split
  · rw [Option.map_map]
    congr 1
    funext entry
    exact touch.meaning_change entry
  · rfl

theorem meaning_touch_all (table : SymbolTable) (touches : List Touch) (name : String) :
    ((table.touchAll touches).lookup name).map Entry.meaning =
      (table.lookup name).map Entry.meaning :=
  touch_all_keeps (fun table => (table.lookup name).map Entry.meaning)
    (fun table touch => table.meaning_touch touch name) table touches

theorem depth_touch (table : SymbolTable) (touch : Touch) :
    (table.touch touch).depth = table.depth :=
  depth_modify touch.change table touch.name

theorem depth_touch_all (table : SymbolTable) (touches : List Touch) :
    (table.touchAll touches).depth = table.depth :=
  touch_all_keeps depth depth_touch table touches

theorem contains_touch (table : SymbolTable) (touch : Touch) (name : String) :
    (table.touch touch).current.contains name = table.current.contains name := by
  have scopes := scopes_touch table touch
  rw [scopes_eq_cons (table.touch touch), scopes_eq_cons table, Scope.modifyFirst] at scopes
  split at scopes
  · rw [(List.cons.inj scopes).1, Scope.contains_modify]
  · rw [(List.cons.inj scopes).1]

theorem contains_touch_all (table : SymbolTable) (touches : List Touch) (name : String) :
    (table.touchAll touches).current.contains name = table.current.contains name :=
  touch_all_keeps (fun table => table.current.contains name)
    (fun table touch => table.contains_touch touch name) table touches

theorem scopes_under (table : SymbolTable) (own : List Scope) :
    (table.under own).scopes = own ++ table.scopes := List.append_assoc _ _ _

theorem depth_under (table : SymbolTable) (own : List Scope) :
    (table.under own).depth = own.length + table.depth := List.length_append

theorem lookup_under (table : SymbolTable) (own : List Scope) (name : String) :
    (table.under own).lookup name =
      (own.findSome? fun scope => scope.get? name).or (table.lookup name) := by
  unfold lookup
  rw [scopes_under, List.findSome?_append]

theorem current_under (table : SymbolTable) (scope : Scope) (own : List Scope) :
    (table.under (scope :: own)).current = scope := rfl

/-- A mark is made in the scopes opened further in if one of them has the name. -/
theorem modify_under_of_own (change : Entry → Entry)
    (has : (own.any fun scope => scope.contains name) = true) :
    (table.under own).modify name change = table.under (Scope.modifyFirst change name own) := by
  apply ext_scopes
  rw [scopes_modify, scopes_under, scopes_under, Scope.modify_first_append, if_pos has]

theorem modify_under_of_outer (change : Entry → Entry)
    (lacks : ¬(own.any fun scope => scope.contains name) = true) :
    (table.under own).modify name change = (table.modify name change).under own := by
  apply ext_scopes
  rw [scopes_modify, scopes_under, scopes_under, Scope.modify_first_append, if_neg lacks,
    scopes_modify]

theorem define_under_of_free {scope : Scope} {entry : Entry} (free : scope.contains name = false) :
    ((table.under (scope :: own)).define name entry).2 =
      table.under (scope.push name entry :: own) := by
  rw [define, current_under, if_neg (by simp [free])]
  rfl

end SymbolTable

end TinyPascal
