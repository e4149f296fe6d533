import TinyPascal.Proofs.Scoping.Resolution
import TinyPascal.Proofs.Scoping.Table

/-!
# What the scopes hold

Behind any part of the itinerary a scope holds the declarations it has taken up, each with the
marks it has got by then. One more stop changes at most one of the scopes around it, and that at
one name: a declaration adds to the innermost scope, and what happens to a name changes the entry
that the name stands for.
-/

namespace TinyPascal

set_option autoImplicit false

/-- The entry of a name of the given meaning after this happened to it. -/
def Naming.marked (naming : Naming) (meaning : Meaning) (entry : Entry) : Entry :=
  { entry with
    initialized := entry.initialized || naming.assigns meaning
    used := entry.used || naming.uses meaning }

namespace Stops

/-- What is known about `binding` behind `stops`. -/
def now (stops : Stops) (binding : Binding) : Entry :=
  { binding.declared.entry with
    initialized := binding.declared.entry.initialized || touched Naming.assigns stops binding
    used := binding.declared.entry.used || touched Naming.uses stops binding }

/-- What a scope holds behind `stops`. -/
def scopeNow (stops : Stops) (scope : Address) : Scope :=
  (acceptedIn stops scope).map fun declared => (declared.name, now stops ⟨scope, declared⟩)

variable {past stops : Stops} {scope : Address} {name : String}

/-- Looking up a name among the declarations of a scope finds the first one of that name. -/
theorem get?_accepted (entryOf : Declared → Entry) (stops : Stops) (scope : Address)
    (name : String) :
    Scope.get? ((acceptedIn stops scope).map fun declared => (declared.name, entryOf declared))
        name = (firstIn stops scope name).map entryOf := by
  induction stops using List.reverseRecOn with
  | nil => rfl
  | append_singleton stops stop induction =>
      have last : Scope.get? ((stop.accepted? scope stops).toList.map
          fun declared => (declared.name, entryOf declared)) name =
            if firstIn stops scope name = none then (stop.declares? scope name).map entryOf
            else none := by
        cases accepted : stop.accepted? scope stops with
        | none =>
            cases declares : stop.declares? scope name with
            | none => simp [Scope.get?]
            | some declared =>
                rcases declares?_eq_some.mp declares with ⟨same, rfl⟩
                have taken : firstIn stops scope declared.name ≠ none := by
                  intro free
                  rw [accepted?_eq_some.mpr ⟨same, free⟩] at accepted
                  cases accepted
                simp [taken, Scope.get?]
        | some declared =>
            rcases accepted?_eq_some.mp accepted with ⟨rfl, free⟩
            by_cases same : declared.name = name
            · subst same
              simp [Scope.get?_cons, Stop.declares?, free]
            · simp [Scope.get?, Stop.declares?, same, Ne.symm same]
      rw [accepted_in_concat, List.map_append, first_in_append, first_in_singleton]
      unfold Scope.get? at induction last ⊢
      rw [List.lookup_append, induction, last]
      cases firstIn stops scope name <;> simp

theorem get?_scope_now (stops : Stops) (scope : Address) (name : String) :
    (scopeNow stops scope).get? name =
      (firstIn stops scope name).map fun declared => now stops ⟨scope, declared⟩ :=
  get?_accepted _ stops scope name

theorem now_concat (past : Stops) (scope : Address) (naming : Naming) (binding : Binding) :
    now (past ++ [⟨scope, .naming naming⟩]) binding =
      if resolve past scope naming.name = some binding then
        naming.marked binding.declared.meaning (now past binding)
      else now past binding := by
  unfold now
  rw [touched_concat, touched_concat]
  by_cases here : resolve past scope naming.name = some binding
  · simp [Stop.touches, here, Naming.marked, Bool.or_assoc]
  · simp [Stop.touches, here]

theorem now_of_free {declared : Declared} (free : firstIn past scope declared.name = none) :
    now past ⟨scope, declared⟩ = declared.entry := by
  have untouched : ∀ test, touched test past ⟨scope, declared⟩ = false := by
    intro test
    cases happened : touched test past ⟨scope, declared⟩ with
    | false => rfl
    | true =>
        have found := first_in_of_touched happened
        rw [free] at found
        cases found
  simp [now, untouched]

/-- A declaration adds to its own scope, behind all that the scope holds, unless the name is
taken. -/
theorem scope_now_declare (past : Stops) (scope around : Address) (declared : Declared) :
    scopeNow (past ++ [⟨scope, .naming (.declare declared)⟩]) around =
      if scope = around ∧ firstIn past scope declared.name = none then
        (scopeNow past around).push declared.name declared.entry
      else scopeNow past around := by
  have same : ∀ binding, now (past ++ [⟨scope, .naming (.declare declared)⟩]) binding =
      now past binding := by
    intro binding
    rw [now_concat]
    split
    · simp [Naming.marked, Naming.assigns, Naming.uses]
    · rfl
  unfold scopeNow
  simp only [accepted_in_concat, List.map_append, same]
  by_cases here : scope = around ∧ firstIn past scope declared.name = none
  · rcases here with ⟨rfl, free⟩
    simp [Stop.accepted?, free, Scope.push, now_of_free free]
  · rw [if_neg here]
    have refused : Stop.accepted? around past ⟨scope, .naming (.declare declared)⟩ = none := by
      unfold Stop.accepted?
      apply if_neg
      rintro ⟨rfl, free⟩
      exact here ⟨rfl, free⟩
    simp [refused]

theorem accepted_in_of_plain {act : Act} (plain : ∀ declared, act ≠ .naming (.declare declared))
    (past : Stops) (scope around : Address) :
    acceptedIn (past ++ [⟨scope, act⟩]) around = acceptedIn past around := by
  have nothing : Stop.accepted? around past ⟨scope, act⟩ = none := by
    unfold Stop.accepted?
    split
    · next declared same => exact absurd same (plain declared)
    · rfl
  rw [accepted_in_concat, nothing, Option.toList_none, List.append_nil]

theorem scope_now_quiet {act : Act} (quiet : ∀ naming, act ≠ .naming naming) (past : Stops)
    (scope around : Address) :
    scopeNow (past ++ [⟨scope, act⟩]) around = scopeNow past around := by
  have untouched : ∀ test binding, Stop.touches test binding past ⟨scope, act⟩ = false := by
    intro test binding
    unfold Stop.touches
    split
    · next naming same => exact absurd same (quiet naming)
    · rfl
  unfold scopeNow now
  rw [accepted_in_of_plain (fun _ => quiet _)]
  simp only [touched_concat, untouched, Bool.or_false]

/-- What happens to a name changes the entry that the name stands for, and no other. -/
theorem scope_now_touch {naming : Naming} (plain : ∀ declared, naming ≠ .declare declared)
    (past : Stops) (scope around : Address) :
    scopeNow (past ++ [⟨scope, .naming naming⟩]) around =
      match resolve past scope naming.name with
      | some binding =>
          if binding.scope = around then
            (scopeNow past around).modify (naming.marked binding.declared.meaning) naming.name
          else scopeNow past around
      | none => scopeNow past around := by
  have plainAct : ∀ declared, Act.naming naming ≠ .naming (.declare declared) := by
    intro declared same
    exact plain declared (Act.naming.inj same)
  unfold scopeNow
  rw [accepted_in_of_plain plainAct]
  cases found : resolve past scope naming.name with
  | none => simp [now_concat, found]
  | some binding =>
      rcases binding with ⟨place, first⟩
      have declares := (resolve_eq_some found).2
      by_cases here : place = around
      · subst here
        simp only [if_true, Scope.modify, List.map_map]
        apply List.map_congr_left
        intro declared member
        rw [mem_accepted_in] at member
        -- in one scope a declaration that was taken up is known by its name
        have identified : declared.name = naming.name ↔ first = declared := by
          constructor
          · intro same
            rw [same] at member
            exact Option.some.inj (declares.symm.trans member)
          · intro same
            rw [← same]
            exact name_of_first_in declares
        by_cases same : first = declared
        · simp [now_concat, found, same, identified]
        · simp [now_concat, found, same, identified]
      · simp [now_concat, found, here]

theorem scope_not_mem_outer (scope : Address) : scope ∉ scope.tails.tail := by
  cases scope with
  | nil => simp
  | cons index outer =>
      intro member
      have short := ((List.mem_tails _ _).mp member).length_le
      rw [List.length_cons] at short
      omega

theorem tails_eq_cons (scope : Address) : scope.tails = scope :: scope.tails.tail := by
  cases scope <;> rfl

theorem find_some?_scopes_now (past : Stops) (scope : Address) (name : String) :
    (scope.tails.map (scopeNow past)).findSome? (fun held => held.get? name) =
      (resolve past scope name).map (now past) := by
  unfold resolve
  rw [List.findSome?_map, List.map_findSome?]
  congr 1
  funext around
  simp [get?_scope_now, Function.comp_def]

theorem scopes_now_declare (past : Stops) (scope : Address) (declared : Declared) :
    scope.tails.map (scopeNow (past ++ [⟨scope, .naming (.declare declared)⟩])) =
      if firstIn past scope declared.name = none then
        (scopeNow past scope).push declared.name declared.entry ::
          scope.tails.tail.map (scopeNow past)
      else scope.tails.map (scopeNow past) := by
  have outer : scope.tails.tail.map (scopeNow (past ++ [⟨scope, .naming (.declare declared)⟩])) =
      scope.tails.tail.map (scopeNow past) := by
    apply List.map_congr_left
    intro around member
    have different : scope ≠ around := by
      intro same
      rw [← same] at member
      exact scope_not_mem_outer scope member
    simp [scope_now_declare, different]
  rw [tails_eq_cons, List.map_cons, List.tail_cons, outer, scope_now_declare]
  by_cases free : firstIn past scope declared.name = none
  · rw [if_pos ⟨rfl, free⟩, if_pos free]
  · rw [if_neg (fun both => free both.2), if_neg free, List.map_cons]

theorem tails_nodup (scope : Address) : scope.tails.Nodup := by
  induction scope with
  | nil => simp
  | cons index outer induction =>
      exact List.nodup_cons.mpr ⟨scope_not_mem_outer (index :: outer), induction⟩

/-- Changing the scope of the declaration that is found first is changing the first scope that
has the name. -/
theorem map_modify_found (change : Entry → Entry) {scopes : List Address} {binding : Binding}
    (distinct : scopes.Nodup)
    (found : scopes.findSome? (fun around => (firstIn past around name).map (Binding.mk around)) =
      some binding) :
    scopes.map (fun around =>
        if binding.scope = around then (scopeNow past around).modify change name
        else scopeNow past around) =
      Scope.modifyFirst change name (scopes.map (scopeNow past)) := by
  induction scopes with
  | nil => cases found
  | cons around outer induction =>
      rw [List.nodup_cons] at distinct
      rw [List.findSome?_cons] at found
      cases first : firstIn past around name with
      | some declared =>
          rw [first] at found
          cases found
          have here : (scopeNow past around).contains name = true := by
            simp [Scope.contains, get?_scope_now, first]
          have unchanged : ∀ other ∈ outer,
              (if around = other then (scopeNow past other).modify change name
                else scopeNow past other) = scopeNow past other := by
            intro other member
            apply if_neg
            intro same
            rw [same] at distinct
            exact distinct.1 member
          simp only [List.map_cons, if_true, Scope.modifyFirst, here]
          rw [List.map_congr_left unchanged]
      | none =>
          rw [first] at found
          have absent : (scopeNow past around).contains name = false := by
            simp [Scope.contains, get?_scope_now, first]
          have different : binding.scope ≠ around := by
            rcases List.exists_of_findSome?_eq_some found with ⟨place, member, here⟩
            rw [Option.map_eq_some_iff] at here
            rcases here with ⟨declared, _, rfl⟩
            intro same
            rw [← same] at distinct
            exact distinct.1 member
          simp only [List.map_cons, different, if_false, Scope.modifyFirst, absent,
            Bool.false_eq_true]
          rw [induction distinct.2 found]

theorem scopes_now_touch {naming : Naming} (plain : ∀ declared, naming ≠ .declare declared)
    (past : Stops) (scope : Address) :
    scope.tails.map (scopeNow (past ++ [⟨scope, .naming naming⟩])) =
      match resolve past scope naming.name with
      | some binding =>
          Scope.modifyFirst (naming.marked binding.declared.meaning) naming.name
            (scope.tails.map (scopeNow past))
      | none => scope.tails.map (scopeNow past) := by
  have everywhere := funext (scope_now_touch plain past scope)
  rw [everywhere]
  cases found : resolve past scope naming.name with
  | none => rfl
  | some binding => exact map_modify_found _ (tails_nodup scope) found

end Stops

end TinyPascal
