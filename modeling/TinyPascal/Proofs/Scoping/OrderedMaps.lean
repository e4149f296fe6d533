import Mathlib.Data.List.Induction
import TinyPascal.Proofs.Scoping.Slots

/-!
# A stack of ordered maps

Calls to a table of names open and close scopes, add names and change what is known about them.
After any calls a scope has the names that were tried in it, each where it was tried first.
A call to write meets the entry that a look-up finds, and all around it stays as it is.
-/

namespace TinyPascal

set_option autoImplicit false

namespace SymbolTable

/-- The innermost entry of a name, with the scopes inside and outside of its own, and what stands
before and behind it there. -/
structure Stands (table : SymbolTable) (name : String) (entry : Entry) (inside : List Scope)
    (earlier later : Scope) (outside : List Scope) : Prop where
  whole : table.scopes = inside ++ (earlier ++ (name, entry) :: later) :: outside
  hidden : ∀ scope ∈ inside, name ∉ scope.names
  first : name ∉ earlier.names
  last : name ∉ later.names

def Shows (table : SymbolTable) (name : String) (entry : Entry) : Prop :=
  ∃ inside earlier later outside, table.Stands name entry inside earlier later outside

def Misses (table : SymbolTable) (name : String) : Prop :=
  ∀ scope ∈ table.scopes, name ∉ scope.names

/-- The innermost entry `old` of a name is `new` instead in `after`, at the same place, and that is
all that differs. -/
def Rewrites (table : SymbolTable) (name : String) (old new : Entry) (after : SymbolTable) : Prop :=
  ∃ inside earlier later outside, table.Stands name old inside earlier later outside ∧
    after.Stands name new inside earlier later outside

def IsDistinct (table : SymbolTable) : Prop :=
  ∀ scope ∈ table.scopes, scope.names.Nodup

section Entries

variable {table after : SymbolTable} {name : String} {entry old new : Entry}

theorem lookup_eq_none_iff : table.lookup name = none ↔ table.Misses name := by
  rw [lookup, List.findSome?_eq_none_iff]
  simp only [Scope.get?_eq_none_iff]
  rfl

theorem lookup_eq_some_iff (distinct : table.IsDistinct) :
    table.lookup name = some entry ↔ table.Shows name entry := by
  rw [lookup, List.findSome?_eq_some_iff]
  constructor
  · rintro ⟨inside, scope, outside, whole, found, hidden⟩
    rcases Scope.get?_eq_some_iff.mp found with ⟨earlier, later, rfl, -⟩
    have own : earlier ++ (name, entry) :: later ∈ table.scopes := by
      rw [whole]
      exact List.mem_append_right _ List.mem_cons_self
    rcases Scope.apart_of_nodup (distinct _ own) with ⟨first, last⟩
    exact ⟨inside, earlier, later, outside, whole,
      fun scope member => Scope.get?_eq_none_iff.mp (hidden scope member), first, last⟩
  · rintro ⟨inside, earlier, later, outside, stands⟩
    exact ⟨inside, _, outside, stands.whole, Scope.get?_eq_some_iff.mpr ⟨_, _, rfl, stands.first⟩,
      fun scope member => Scope.get?_eq_none_iff.mpr (stands.hidden scope member)⟩

theorem Stands.modify {inside outside : List Scope} {earlier later : Scope}
    (stands : table.Stands name entry inside earlier later outside) (change : Entry → Entry) :
    (table.modify name change).Stands name (change entry) inside earlier later outside := by
  refine ⟨?_, stands.hidden, stands.first, stands.last⟩
  have has : name ∈ Scope.names (earlier ++ (name, entry) :: later) := by simp [Scope.names]
  rw [scopes_modify, stands.whole, Scope.modify_first_split change stands.hidden has,
    Scope.modify_split change stands.first stands.last]

theorem map_names_modify (table : SymbolTable) (name : String) (change : Entry → Entry) :
    (table.modify name change).scopes.map Scope.names = table.scopes.map Scope.names := by
  rw [scopes_modify, Scope.map_names_modify_first]

theorem rewrites_modify (distinct : table.IsDistinct) (found : table.lookup name = some old)
    (change : Entry → Entry) : table.Rewrites name old (change old) (table.modify name change) := by
  rcases (lookup_eq_some_iff distinct).mp found with ⟨inside, earlier, later, outside, stands⟩
  exact ⟨inside, earlier, later, outside, stands, stands.modify change⟩

end Entries

/-- What can be asked of a table. To `write` goes by way of the place of the name. -/
inductive Call where
  | push
  | pop
  | define (name : String) (entry : Entry)
  | redefine (name : String) (entry : Entry)
  | write (name : String) (entry : Entry)
  | markUsed (name : String)
  | markInitialized (name : String)
  | lookup (name : String)
  | lookupSlot (name : String)
  | lookupInCurrent (name : String)
deriving DecidableEq, Repr

inductive Answer where
  | done
  | popped (scope : Scope)
  | failed (failure : Failure)
  | accepted (verdict : Bool)
  | found (entry : Option Entry)
deriving DecidableEq, Repr

def answer (table : SymbolTable) : Call → Answer × SymbolTable
  | .push => (.done, table.push)
  | .pop =>
      match table.pop with
      | .ok (scope, rest) => (.popped scope, rest)
      | .error failure => (.failed failure, table)
  | .define name entry => (.accepted (table.define name entry).1, (table.define name entry).2)
  | .redefine name entry => (.accepted (table.redefine name entry).1, (table.redefine name entry).2)
  | .write name entry =>
      match table.slot? name with
      | some slot => (.accepted true, slot.put entry)
      | none => (.accepted false, table)
  | .markUsed name => (.done, table.markUsed name)
  | .markInitialized name => (.done, table.markInitialized name)
  | .lookup name => (.found (table.lookup name), table)
  | .lookupSlot name => (.found ((table.slot? name).map Slot.entry), table)
  | .lookupInCurrent name => (.found (table.lookupInCurrent name), table)

/-- The table behind a row of calls, some of which may have failed. -/
def run (table : SymbolTable) (calls : List Call) : SymbolTable :=
  calls.foldl (fun table call => (table.answer call).2) table

/-- The entry of a visible name is changed, and nothing else. A name that is not visible changes
nothing. -/
structure Writes (before : SymbolTable) (name : String) (change : Entry → Entry) (seen : Bool)
    (after : SymbolTable) : Prop where
  entry : (∃ old, seen = true ∧ before.Rewrites name old (change old) after) ∨
    (seen = false ∧ before.Misses name ∧ after = before)
  names : after.scopes.map Scope.names = before.scopes.map Scope.names
  depth : after.depth = before.depth

/-- What a call is to answer, and what it is to leave behind. -/
def Fulfils (before : SymbolTable) : Call → Answer → SymbolTable → Prop
  | .push, answer, after =>
      answer = .done ∧ after.scopes = [] :: before.scopes ∧ after.depth = before.depth + 1
  | .pop, answer, after =>
      (∃ scope, answer = .popped scope ∧ before.scopes = scope :: after.scopes ∧
        before.depth = after.depth + 1) ∨
      (before.depth = 0 ∧ answer = .failed (.internal "cannot pop the global scope") ∧
        after = before)
  | .define name entry, answer, after =>
      ∃ scope outer, before.scopes = scope :: outer ∧
        (name ∉ scope.names ∧ answer = .accepted true ∧
            after.scopes = (scope ++ [(name, entry)]) :: outer ∨
          name ∈ scope.names ∧ answer = .accepted false ∧ after = before)
  | .redefine name entry, answer, after | .write name entry, answer, after =>
      ∃ seen, answer = .accepted seen ∧ before.Writes name (fun _ => entry) seen after
  | .markUsed name, answer, after =>
      answer = .done ∧ ∃ seen, before.Writes name (fun entry => { entry with used := true }) seen after
  | .markInitialized name, answer, after =>
      answer = .done ∧
        ∃ seen, before.Writes name (fun entry => { entry with initialized := true }) seen after
  | .lookup name, answer, after | .lookupSlot name, answer, after =>
      after = before ∧ ∃ found, answer = .found found ∧
        ∀ entry, found = some entry ↔ before.Shows name entry
  | .lookupInCurrent name, answer, after =>
      after = before ∧ ∃ scope outer, before.scopes = scope :: outer ∧
        ∃ found, answer = .found found ∧ ∀ entry, found = some entry ↔ (name, entry) ∈ scope

section Steps

variable {table : SymbolTable} {name : String} {entry : Entry}

theorem writes_modify (distinct : table.IsDistinct) (name : String) (change : Entry → Entry) :
    table.Writes name change (table.lookup name).isSome (table.modify name change) := by
  refine ⟨?_, map_names_modify table name change, depth_modify change table name⟩
  cases found : table.lookup name with
  | some old => exact .inl ⟨old, rfl, rewrites_modify distinct found change⟩
  | none => exact .inr ⟨rfl, lookup_eq_none_iff.mp found, modify_of_lookup_none change found⟩

theorem lookup_in_current_eq_some_iff (distinct : table.IsDistinct) :
    table.lookupInCurrent name = some entry ↔ (name, entry) ∈ table.current := by
  have own : table.current ∈ table.scopes := by
    rw [scopes_eq_cons]
    exact List.mem_cons_self
  exact Scope.get?_eq_some_iff_mem (distinct _ own)

theorem fulfils_answer (distinct : table.IsDistinct) (call : Call) :
    table.Fulfils call (table.answer call).1 (table.answer call).2 := by
  cases call with
  | push => exact ⟨rfl, rfl, rfl⟩
  | pop =>
      rcases table with ⟨global, _ | ⟨scope, outer⟩⟩
      · exact .inr ⟨rfl, rfl, rfl⟩
      · exact .inl ⟨scope, rfl, rfl, rfl⟩
  | define name entry =>
      refine ⟨table.current, table.scopes.tail, scopes_eq_cons table, ?_⟩
      cases taken : table.current.contains name with
      | true =>
          have refused : table.define name entry = (false, table) := define_of_taken taken
          exact .inr ⟨Scope.contains_iff.mp taken, congrArg _ (congrArg Prod.fst refused),
            congrArg Prod.snd refused⟩
      | false =>
          have added : (table.define name entry).1 = true ∧ _ := define_of_free taken
          refine .inl ⟨?_, congrArg _ added.1, added.2⟩
          rw [← Scope.contains_iff, taken]
          exact Bool.false_ne_true
  | redefine name entry => exact ⟨_, rfl, writes_modify distinct name fun _ => entry⟩
  | write name entry =>
      have written := writes_modify distinct name fun _ => entry
      refine ⟨(table.lookup name).isSome, ?_⟩
      rw [answer, slot?_eq]
      cases found : table.lookup name with
      | some old =>
          rw [found] at written
          exact ⟨rfl, written⟩
      | none =>
          rw [found, modify_of_lookup_none _ found] at written
          exact ⟨rfl, written⟩
  | markUsed name => exact ⟨rfl, _, writes_modify distinct name _⟩
  | markInitialized name => exact ⟨rfl, _, writes_modify distinct name _⟩
  | lookup name => exact ⟨rfl, _, rfl, fun _ => lookup_eq_some_iff distinct⟩
  | lookupSlot name =>
      refine ⟨rfl, _, rfl, ?_⟩
      intro entry
      rw [slot?_eq, Option.map_map, show Slot.entry ∘ _ = id from rfl, Option.map_id]
      exact lookup_eq_some_iff distinct
  | lookupInCurrent name =>
      exact ⟨rfl, table.current, table.scopes.tail, scopes_eq_cons table, _, rfl,
        fun _ => lookup_in_current_eq_some_iff distinct⟩

end Steps

/-- The names tried in each open scope, innermost first, behind one more call. -/
def triedAfter (tried : List (List String)) : Call → List (List String)
  | .push => [] :: tried
  | .pop =>
      match tried with
      | _ :: outer :: others => outer :: others
      | _ => tried
  | .define name _ =>
      match tried with
      | names :: outer => (names ++ [name]) :: outer
      | [] => []
  | _ => tried

/-- The names that calls to a new table tried in each scope that they left open. -/
def tried (calls : List Call) : List (List String) := calls.foldl triedAfter [[]]

theorem erase_dups_snoc (names : List String) (name : String) : (names ++ [name]).eraseDups =
    if name ∈ names then names.eraseDups else names.eraseDups ++ [name] := by
  rw [List.eraseDups_append]
  by_cases known : name ∈ names
  · simp [known, List.removeAll]
  · simp [known, List.removeAll, List.eraseDups_cons]

theorem nodup_erase_dups (names : List String) : names.eraseDups.Nodup := by
  induction names using List.reverseRecOn with
  | nil => exact .nil
  | append_singleton names name induction =>
      rw [erase_dups_snoc]
      split
      · exact induction
      · next new =>
        rw [List.nodup_append_comm, List.singleton_append, List.nodup_cons, List.mem_eraseDups]
        exact ⟨new, induction⟩

/-- The scopes have the names that were tried in them, each once and where it was tried first. -/
def HasNames (table : SymbolTable) (tried : List (List String)) : Prop :=
  table.scopes.map Scope.names = tried.map List.eraseDups

section Runs

variable {table after : SymbolTable} {tried : List (List String)} {call : Call} {answer : Answer}

theorem HasNames.is_distinct (has : table.HasNames tried) : table.IsDistinct := by
  intro scope member
  have listed := List.mem_map_of_mem (f := Scope.names) member
  rw [has] at listed
  rcases List.mem_map.mp listed with ⟨names, -, same⟩
  rw [← same]
  exact nodup_erase_dups names

theorem HasNames.step (has : table.HasNames tried) (does : table.Fulfils call answer after) :
    after.HasNames (triedAfter tried call) := by
  unfold HasNames at has ⊢
  cases call with
  | push =>
      rw [does.2.1, List.map_cons, has]
      rfl
  | pop =>
      -- The names tried in the global scope stay, whether it was left behind or could not be closed.
      rcases does with ⟨scope, -, popped, -⟩ | ⟨flat, -, rfl⟩
      · rw [popped] at has
        have beneath := depth_eq after
        match tried, has with
        | names :: outer :: others, has => exact List.tail_eq_of_cons_eq has
        | [names], has =>
            rw [List.map_eq_nil_iff.mp (List.tail_eq_of_cons_eq has)] at beneath
            cases beneath
      · have alone := congrArg List.length has
        rw [List.length_map, List.length_map, ← depth_eq, flat] at alone
        rcases List.length_eq_one_iff.mp alone.symm with ⟨names, rfl⟩
        exact has
  | define name entry =>
      rcases does with ⟨scope, outer, whole, does⟩
      rw [whole] at has
      match tried, has with
      | names :: others, has =>
          rcases List.cons_eq_cons.mp has with ⟨first, rest⟩
          have known : name ∈ scope.names ↔ name ∈ names := by rw [first, List.mem_eraseDups]
          rw [triedAfter, List.map_cons, erase_dups_snoc]
          rcases does with ⟨new, -, added⟩ | ⟨taken, -, rfl⟩
          · rw [added, List.map_cons, if_neg (mt known.mpr new), ← first, ← rest]
            exact congrArg (· :: _) (Scope.names_push scope)
          · rw [whole, List.map_cons, if_pos (known.mp taken), first, rest]
  | redefine name entry | write name entry =>
      rcases does with ⟨seen, -, written⟩
      exact written.names.trans has
  | markUsed name | markInitialized name =>
      rcases does with ⟨-, seen, written⟩
      exact written.names.trans has
  | lookup name | lookupSlot name | lookupInCurrent name =>
      rw [does.1]
      exact has

theorem HasNames.run (has : table.HasNames tried) (calls : List Call) :
    (table.run calls).HasNames (calls.foldl triedAfter tried) := by
  induction calls generalizing table tried with
  | nil => exact has
  | cons call calls induction =>
      exact induction (has.step (fulfils_answer has.is_distinct call))

end Runs

/-- Behind any calls to a new table each scope has the names that were tried in it, once and in the
order in which they came up, and one more call does just what it is to do. -/
theorem table_is_a_stack_of_ordered_maps (calls : List Call) :
    (empty.run calls).HasNames (tried calls) ∧ (empty.run calls).IsDistinct ∧
      ∀ call, (empty.run calls).Fulfils call ((empty.run calls).answer call).1
        ((empty.run calls).answer call).2 := by
  have new : empty.HasNames [[]] := rfl
  have has := new.run calls
  exact ⟨has, has.is_distinct, fulfils_answer has.is_distinct⟩

end SymbolTable

end TinyPascal
