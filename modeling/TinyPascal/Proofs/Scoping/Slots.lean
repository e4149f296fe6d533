import Mathlib.Data.List.Nodup
import TinyPascal.Proofs.Scoping.Table

/-!
# The place of a name in the table

A name may stand in several scopes, and reading and writing search for its place in different ways.
A look-up asks one scope after the other for an entry. To write, the place is found
first, as the number of a procedure scope or else in the global scope, and then read and written.
Both come upon the same entry.
-/

namespace TinyPascal

set_option autoImplicit false

namespace Scope

variable {scope earlier later : Scope} {name : String} {entry : Entry}

def names (scope : Scope) : List String := scope.map Prod.fst

theorem not_mem_names_iff : name ∉ scope.names ↔ ∀ pair ∈ scope, (name != pair.1) = true := by
  rw [names, List.mem_map]
  constructor
  · intro apart pair member
    exact bne_iff_ne.mpr fun same => apart ⟨pair, member, same.symm⟩
  · rintro apart ⟨pair, member, same⟩
    exact bne_iff_ne.mp (apart pair member) same.symm

theorem get?_eq_some_iff : scope.get? name = some entry ↔
    ∃ earlier later, scope = earlier ++ (name, entry) :: later ∧ name ∉ names earlier := by
  simp only [not_mem_names_iff]
  exact List.lookup_eq_some_iff

theorem get?_eq_none_iff : scope.get? name = none ↔ name ∉ scope.names := by
  rw [not_mem_names_iff]
  exact List.lookup_eq_none_iff

theorem contains_iff : scope.contains name = true ↔ name ∈ scope.names := by
  rw [contains, Option.isSome_iff_ne_none, Ne, get?_eq_none_iff, Decidable.not_not]

theorem apart_of_nodup (distinct : (names (earlier ++ (name, entry) :: later)).Nodup) :
    name ∉ names earlier ∧ name ∉ names later := by
  rw [names, List.map_append, List.map_cons, List.nodup_middle, List.nodup_cons, List.mem_append,
    not_or] at distinct
  exact distinct.1

theorem get?_eq_some_iff_mem (distinct : scope.names.Nodup) :
    scope.get? name = some entry ↔ (name, entry) ∈ scope := by
  rw [get?_eq_some_iff]
  constructor
  · rintro ⟨earlier, later, rfl, -⟩
    exact List.mem_append_right _ List.mem_cons_self
  · intro member
    rcases List.append_of_mem member with ⟨earlier, later, rfl⟩
    exact ⟨earlier, later, rfl, (apart_of_nodup distinct).1⟩

theorem names_push (scope : Scope) : (scope.push name entry).names = scope.names ++ [name] := by
  rw [push, names, List.map_append]
  rfl

theorem names_modify (change : Entry → Entry) (scope : Scope) :
    (scope.modify change name).names = scope.names := by
  rw [modify, names, List.map_map]
  apply List.map_congr_left
  intro pair _
  by_cases same : pair.1 = name <;> simp [same]

theorem modify_split (change : Entry → Entry) (first : name ∉ earlier.names)
    (last : name ∉ later.names) : modify change name (earlier ++ (name, entry) :: later) =
      earlier ++ (name, change entry) :: later := by
  have front := modify_of_get?_none change name (get?_eq_none_iff.mpr first)
  have back := modify_of_get?_none change name (get?_eq_none_iff.mpr last)
  have whole : modify change name (earlier ++ (name, entry) :: later) =
      modify change name earlier ++ modify change name ((name, entry) :: later) := List.map_append
  rw [whole, modify_cons, if_pos rfl, front, back]

theorem modify_first_split (change : Entry → Entry) {inside outside : List Scope}
    (hidden : ∀ scope ∈ inside, name ∉ scope.names) (has : name ∈ scope.names) :
    modifyFirst change name (inside ++ scope :: outside) =
      inside ++ scope.modify change name :: outside := by
  induction inside with
  | nil => exact if_pos (contains_iff.mpr has)
  | cons other inside induction =>
      rcases List.forall_mem_cons.mp hidden with ⟨absent, others⟩
      rw [List.cons_append, modifyFirst, if_neg (mt contains_iff.mp absent), induction others]
      rfl

theorem map_names_modify_first (change : Entry → Entry) (scopes : List Scope) :
    (modifyFirst change name scopes).map names = scopes.map names := by
  induction scopes with
  | nil => rfl
  | cons scope outer induction =>
      rw [modifyFirst]
      split
      · rw [List.map_cons, List.map_cons, names_modify]
      · rw [List.map_cons, List.map_cons, induction]

end Scope

namespace SymbolTable

/-- A place in a table, with what stands there and a way to put something else in its stead. -/
structure Slot where
  entry : Entry
  put : Entry → SymbolTable

/-- The place of a name: in the innermost of the procedure scopes that have it, and if there is none,
in the global scope. -/
def slot? (table : SymbolTable) (name : String) : Option Slot :=
  match table.inner.findIdx? fun scope => scope.contains name with
  | some i => (table.inner[i]?.bind fun scope => scope.get? name).map fun entry =>
      ⟨entry, fun new => { table with
        inner := table.inner.modify i fun scope => scope.modify (fun _ => new) name }⟩
  | none => (table.global.get? name).map fun entry =>
      ⟨entry, fun new => { table with global := table.global.modify (fun _ => new) name }⟩

variable (table : SymbolTable) (name : String)

theorem find_some?_eq (scopes : List Scope) : (scopes.findSome? fun scope => scope.get? name) =
    (scopes.findIdx? fun scope => scope.contains name).bind fun i =>
      scopes[i]?.bind fun scope => scope.get? name := by
  induction scopes with
  | nil => rfl
  | cons scope outer induction =>
      rw [List.findSome?_cons, List.findIdx?_cons]
      by_cases here : scope.contains name
      · rw [if_pos here]
        rcases Option.isSome_iff_exists.mp here with ⟨entry, found⟩
        simp [found]
      · have absent : scope.get? name = none := by simpa [Scope.contains] using here
        rw [if_neg here, absent, induction]
        simp only [Option.bind_map]
        rfl

theorem modify_innermost_eq (change : Entry → Entry) (global : Scope) (inner : List Scope) :
    modifyInnermost change name global inner =
      match inner.findIdx? fun scope => scope.contains name with
      | some i => ⟨global, inner.modify i (Scope.modify change name)⟩
      | none => ⟨global.modify change name, inner⟩ := by
  induction inner with
  | nil => rfl
  | cons scope outer induction =>
      rw [modifyInnermost, List.findIdx?_cons]
      by_cases here : scope.contains name
      · rw [if_pos here, if_pos here]
        rfl
      · rw [if_neg here, if_neg here, induction]
        cases outer.findIdx? fun scope => scope.contains name <;> rfl

/-- The place that is written to is the one a look-up reads. -/
theorem slot?_eq : table.slot? name = (table.lookup name).map fun entry =>
    ⟨entry, fun new => table.modify name fun _ => new⟩ := by
  have read : table.lookup name = _ := List.findSome?_append
  rw [find_some?_eq] at read
  have write : ∀ new, table.modify name (fun _ => new) = _ := fun new =>
    modify_innermost_eq name (fun _ => new) table.global table.inner
  rw [slot?, read]
  simp only [write]
  cases found : table.inner.findIdx? fun scope => scope.contains name with
  | none => simp
  | some i =>
      rcases List.findIdx?_eq_some_iff_getElem.mp found with ⟨inside, here, -⟩
      rcases Option.isSome_iff_exists.mp here with ⟨entry, stands⟩
      simp [inside, stands]

end SymbolTable

end TinyPascal
