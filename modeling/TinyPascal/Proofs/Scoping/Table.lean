import TinyPascal.Scope.Table

/-!
# Looking up and changing names

A table is the list of its scopes, innermost first. A change meets the first scope that has
the name, which is the one a look-up stops at. So the changed entry is the one that is found,
and all other names keep theirs.
-/

namespace TinyPascal

set_option autoImplicit false

namespace Scope

variable (change : Entry → Entry) (name : String)

theorem get?_cons (key : String) (entry : Entry) (scope : Scope) :
    get? ((key, entry) :: scope) name = if key = name then some entry else scope.get? name := by
  unfold get?
  rw [List.lookup_cons]
  by_cases same : key = name
  · simp [same]
  · have different : (name == key) = false := by simpa using Ne.symm same
    simp [same, different]

theorem modify_cons (key : String) (entry : Entry) (scope : Scope) :
    modify change name ((key, entry) :: scope) =
      (key, if key = name then change entry else entry) :: modify change name scope := by
  by_cases same : key = name <;> simp [modify, same]

theorem get?_modify (scope : Scope) (other : String) :
    (scope.modify change name).get? other =
      if other = name then (scope.get? other).map change else scope.get? other := by
  induction scope with
  | nil => simp [modify, get?]
  | cons pair scope induction =>
      rw [modify_cons, get?_cons, get?_cons, induction]
      by_cases found : pair.1 = other
      · by_cases changed : other = name <;> simp [found, changed]
      · simp [found]

theorem modify_of_get?_none {scope : Scope} (absent : scope.get? name = none) :
    scope.modify change name = scope := by
  induction scope with
  | nil => rfl
  | cons pair scope induction =>
      rw [get?_cons] at absent
      by_cases same : pair.1 = name
      · simp [same] at absent
      · rw [if_neg same] at absent
        rw [modify_cons, if_neg same, induction absent]

theorem modify_modify (again : Entry → Entry) (scope : Scope) :
    (scope.modify change name).modify again name = scope.modify (again ∘ change) name := by
  unfold modify
  rw [List.map_map]
  congr
  funext pair
  by_cases same : pair.1 = name <;> simp [same]

theorem modify_id (scope : Scope) : scope.modify id name = scope := by
  unfold modify
  simp

theorem contains_modify (scope : Scope) (other : String) :
    (scope.modify change name).contains other = scope.contains other := by
  rw [contains, contains, get?_modify]
  by_cases same : other = name <;> simp [same]

/-- Changes the first of some scopes that has the name. -/
def modifyFirst : List Scope → List Scope
  | [] => []
  | scope :: outer =>
      if scope.contains name then scope.modify change name :: outer else scope :: modifyFirst outer

theorem modify_first_modify_first (again : Entry → Entry) (scopes : List Scope) :
    modifyFirst again name (modifyFirst change name scopes) =
      modifyFirst (again ∘ change) name scopes := by
  induction scopes with
  | nil => rfl
  | cons scope outer induction =>
      by_cases here : scope.contains name
      · simp [modifyFirst, here, contains_modify, modify_modify]
      · simp [modifyFirst, here, induction]

theorem modify_first_id (scopes : List Scope) : modifyFirst id name scopes = scopes := by
  induction scopes with
  | nil => rfl
  | cons scope outer induction =>
      by_cases here : scope.contains name
      · simp [modifyFirst, here, modify_id]
      · simp [modifyFirst, here, induction]

theorem find_some?_modify_first (scopes : List Scope) (other : String) :
    (modifyFirst change name scopes).findSome? (fun scope => scope.get? other) =
      if other = name then (scopes.findSome? fun scope => scope.get? other).map change
      else scopes.findSome? fun scope => scope.get? other := by
  induction scopes with
  | nil => simp [modifyFirst]
  | cons scope outer induction =>
      by_cases here : scope.contains name
      · rw [modifyFirst, if_pos here, List.findSome?_cons, List.findSome?_cons, get?_modify]
        by_cases same : other = name
        · rw [contains, ← same] at here
          cases found : scope.get? other with
          | none => simp [found] at here
          | some entry => simp [same]
        · simp [same]
      · rw [modifyFirst, if_neg here, List.findSome?_cons, List.findSome?_cons, induction]
        by_cases same : other = name
        · rw [contains, Bool.not_eq_true, Option.isSome_eq_false_iff, Option.isNone_iff_eq_none,
            ← same] at here
          simp [← same, here]
        · simp [same]

theorem length_modify_first (change : Entry → Entry) (name : String) (scopes : List Scope) :
    (modifyFirst change name scopes).length = scopes.length := by
  induction scopes with
  | nil => rfl
  | cons scope outer induction =>
      rw [modifyFirst]
      split
      · rfl
      · rw [List.length_cons, List.length_cons, induction]

end Scope

namespace SymbolTable

variable {table other : SymbolTable} {name : String} (change : Entry → Entry)

theorem ext_scopes (same : table.scopes = other.scopes) : table = other := by
  have parts := List.append_inj' same rfl
  cases table
  cases other
  simp only [List.cons.injEq, and_true] at parts
  rw [parts.1, parts.2]

theorem scopes_eq_cons (table : SymbolTable) :
    table.scopes = table.current :: table.scopes.tail := by
  unfold scopes current
  cases table.inner <;> rfl

theorem scopes_modify (table : SymbolTable) (name : String) :
    (table.modify name change).scopes = Scope.modifyFirst change name table.scopes := by
  unfold modify scopes
  induction table.inner with
  | nil =>
      by_cases here : table.global.contains name
      · simp [modifyInnermost, Scope.modifyFirst, here]
      · have absent : table.global.get? name = none := by
          simpa [Scope.contains] using here
        simp [modifyInnermost, Scope.modifyFirst, here,
          Scope.modify_of_get?_none change name absent]
  | cons scope outer induction =>
      by_cases here : scope.contains name
      · simp [modifyInnermost, Scope.modifyFirst, here]
      · simpa [modifyInnermost, Scope.modifyFirst, here] using induction

theorem depth_eq (table : SymbolTable) : table.depth + 1 = table.scopes.length := by
  simp [depth, scopes]

theorem depth_modify (table : SymbolTable) (name : String) :
    (table.modify name change).depth = table.depth := by
  have lengths := depth_eq (table.modify name change)
  rw [scopes_modify, Scope.length_modify_first, ← depth_eq table] at lengths
  exact Nat.succ.inj lengths

theorem lookup_modify (table : SymbolTable) (name other : String) :
    (table.modify name change).lookup other =
      if other = name then (table.lookup other).map change else table.lookup other := by
  rw [lookup, scopes_modify, Scope.find_some?_modify_first]
  rfl

theorem modify_of_lookup_none (absent : table.lookup name = none) :
    table.modify name change = table := by
  apply ext_scopes
  rw [scopes_modify]
  unfold lookup at absent
  generalize table.scopes = scopes at absent ⊢
  induction scopes with
  | nil => rfl
  | cons scope outer induction =>
      rw [List.findSome?_cons] at absent
      cases here : scope.get? name with
      | some entry => simp [here] at absent
      | none =>
          rw [here] at absent
          simp [Scope.modifyFirst, Scope.contains, here, induction absent]

theorem modify_modify (again : Entry → Entry) (table : SymbolTable) (name : String) :
    (table.modify name change).modify name again = table.modify name (again ∘ change) := by
  apply ext_scopes
  rw [scopes_modify, scopes_modify, scopes_modify, Scope.modify_first_modify_first]

theorem modify_id (table : SymbolTable) (name : String) : table.modify name id = table := by
  apply ext_scopes
  rw [scopes_modify, Scope.modify_first_id]

theorem scopes_push (table : SymbolTable) : table.push.scopes = [] :: table.scopes := rfl

theorem define_of_taken {entry : Entry} (taken : table.current.contains name = true) :
    table.define name entry = (false, table) := by
  rw [define, if_pos taken]

theorem define_of_free {entry : Entry} (free : table.current.contains name = false) :
    (table.define name entry).1 = true ∧ (table.define name entry).2.scopes =
      table.current.push name entry :: table.scopes.tail := by
  rw [define, if_neg (by simp [free])]
  unfold scopes current
  cases table.inner with
  | nil => exact ⟨rfl, rfl⟩
  | cons scope outer => exact ⟨rfl, rfl⟩

end SymbolTable

end TinyPascal
