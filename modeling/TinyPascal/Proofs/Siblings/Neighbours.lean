import TinyPascal.Proofs.Siblings.Alike
import TinyPascal.Proofs.Siblings.Framed

/-!
# Two procedures side by side

A procedure declares its own name in the scope around it, which then lists the name, and marks
names there. If neither of two procedures mentions the other, nothing depends on which of them
comes first but the order in which the scope lists their names.
-/

namespace TinyPascal

set_option autoImplicit false

namespace SymbolTable

variable {table : SymbolTable} {name other : String} {entry second : Entry}

theorem lookup_define (table : SymbolTable) (name : String) (entry : Entry) (other : String) :
    (table.define name entry).2.lookup other =
      if name = other ∧ table.current.contains name = false then some entry
      else table.lookup other := by
  cases taken : table.current.contains name with
  | true =>
      rw [define_of_taken taken, if_neg]
      intro free
      cases free.2
  | false =>
      unfold lookup
      rw [(define_of_free taken).2, scopes_eq_cons table, List.findSome?_cons, List.findSome?_cons,
        Scope.Alike.get?_push]
      by_cases same : name = other
      · have absent : table.current.get? other = none := by
          rw [← same]
          simpa [Scope.contains] using taken
        simp [same, absent]
      · simp [same]

theorem current_define_of_free (free : table.current.contains name = false) :
    (table.define name entry).2.current = table.current.push name entry := by
  have scopes : (table.define name entry).2.scopes =
      table.current.push name entry :: table.scopes.tail := (define_of_free free).2
  rw [scopes_eq_cons (table.define name entry).2] at scopes
  exact (List.cons.inj scopes).1

theorem contains_define_of_ne (different : name ≠ other) :
    (table.define name entry).2.current.contains other = table.current.contains other := by
  cases taken : table.current.contains name with
  | true => rw [define_of_taken taken]
  | false =>
      rw [current_define_of_free taken, Scope.contains, Scope.contains, Scope.Alike.get?_push,
        if_neg different, Option.or_none]

theorem depth_define (table : SymbolTable) (name : String) (entry : Entry) :
    (table.define name entry).2.depth = table.depth := by
  cases taken : table.current.contains name with
  | true => rw [define_of_taken taken]
  | false =>
      have lengths := depth_eq (table.define name entry).2
      rw [(define_of_free taken).2, List.length_cons, List.length_tail, ← depth_eq table] at lengths
      exact Nat.succ.inj lengths

theorem define_touch {touch : Touch} (different : name ≠ touch.name) :
    ((table.touch touch).define name entry).2 = (table.define name entry).2.touch touch := by
  have still := contains_touch table touch name
  cases taken : table.current.contains name with
  | true =>
      rw [taken] at still
      rw [define_of_taken taken, define_of_taken still]
  | false =>
      rw [taken] at still
      have marked := scopes_touch table touch
      rw [scopes_eq_cons (table.touch touch), scopes_eq_cons table, Scope.modifyFirst] at marked
      have same : (table.current.push name entry).contains touch.name =
          table.current.contains touch.name := by
        rw [Scope.contains, Scope.contains, Scope.Alike.get?_push, if_neg different, Option.or_none]
      apply ext_scopes
      rw [(define_of_free still).2, scopes_touch (table.define name entry).2,
        (define_of_free taken).2, Scope.modifyFirst, same]
      split at marked
      · rw [if_pos ‹_›, (List.cons.inj marked).1, (List.cons.inj marked).2]
        simp [Scope.push, Scope.modify, different]
      · rw [if_neg ‹_›, (List.cons.inj marked).1, (List.cons.inj marked).2]

/-- Two names may be added in any order, but for the order in which they are listed. -/
theorem define_define_alike (different : name ≠ other) :
    ((table.define name entry).2.define other second).2.Alike
      ((table.define other second).2.define name entry).2 := by
  have still : (table.define name entry).2.current.contains other =
      table.current.contains other := contains_define_of_ne different
  have still' : (table.define other second).2.current.contains name =
      table.current.contains name := contains_define_of_ne different.symm
  cases taken : table.current.contains name with
  | true =>
      rw [taken] at still'
      rw [define_of_taken taken, define_of_taken still']
      exact .refl _
  | false =>
      rw [taken] at still'
      cases taken' : table.current.contains other with
      | true =>
          rw [taken'] at still
          rw [define_of_taken still, define_of_taken taken']
          exact .refl _
      | false =>
          rw [taken'] at still
          unfold Alike
          rw [(define_of_free still).2, (define_of_free still').2, current_define_of_free taken,
            current_define_of_free taken', (define_of_free taken).2, (define_of_free taken').2]
          exact .cons (.push_push _ different _ _) (List.forall₂_same.mpr fun scope _ => .refl scope)

theorem Alike.touch_all {table other : SymbolTable} (alike : table.Alike other)
    (touches : List Touch) : (table.touchAll touches).Alike (other.touchAll touches) := by
  induction touches generalizing table other with
  | nil => exact alike
  | cons first others induction => exact induction (alike.modify first.name first.change)

end SymbolTable

namespace Program

def announced (node : Program) (table : SymbolTable) : SymbolTable :=
  if node.name.lexeme.isEmpty then table
  else (table.define node.name.lexeme (.ofProcedure node.name (Walk.paramTypes node.params))).2

def announcement (node : Program) (table : SymbolTable) : List WalkEvent :=
  if node.name.lexeme.isEmpty = false ∧ table.current.contains node.name.lexeme = true then
    [.reported (Walk.finding node.name (.redeclaredProcedure node.name.lexeme))]
  else []

def Mentions (node : Program) (name : String) : Prop :=
  ∃ naming ∈ node.innerNamings, naming.name = name

variable {node second : Program} {table other : SymbolTable} {name : String}

theorem after_declare_procedure (node : Program) (s : WalkState) :
    (Walk.declareProcedure node.name node.params).after s =
      ⟨node.announced s.table, node.announcement s.table ++ s.trace⟩ := by
  unfold Walk.declareProcedure announced announcement
  cases unnamed : node.name.lexeme.isEmpty with
  | true => rfl
  | false =>
      cases taken : s.table.current.contains node.name.lexeme with
      | true =>
          rw [if_neg Bool.false_ne_true, if_neg Bool.false_ne_true, if_pos ⟨rfl, rfl⟩,
            Walk.after_define_of_taken taken, SymbolTable.define_of_taken taken]
          rfl
      | false =>
          rw [if_neg Bool.false_ne_true, if_neg Bool.false_ne_true, if_neg (by simp),
            Walk.after_define_of_free taken]
          rfl

theorem contains_announced (different : node.name.lexeme ≠ name) :
    (node.announced table).current.contains name = table.current.contains name := by
  unfold announced
  split
  · rfl
  · exact SymbolTable.contains_define_of_ne different

theorem depth_announced (node : Program) (table : SymbolTable) :
    (node.announced table).depth = table.depth := by
  unfold announced
  split
  · rfl
  · exact SymbolTable.depth_define _ _ _

theorem lookup_announced (different : node.name.lexeme ≠ name) :
    (node.announced table).lookup name = table.lookup name := by
  unfold announced
  split
  · rfl
  · rw [SymbolTable.lookup_define, if_neg fun both => different both.1]

/-- Where tables agree on a name, they agree on it behind the declaration of a procedure too. -/
theorem meaning_announced
    (same : (other.lookup name).map Entry.meaning = (table.lookup name).map Entry.meaning)
    (taken : other.current.contains node.name.lexeme = table.current.contains node.name.lexeme) :
    ((node.announced other).lookup name).map Entry.meaning =
      ((node.announced table).lookup name).map Entry.meaning := by
  unfold announced
  split
  · exact same
  · rw [SymbolTable.lookup_define, SymbolTable.lookup_define, taken]
    split
    · rfl
    · exact same

theorem announced_touch_all {touches : List Touch}
    (different : ∀ touch ∈ touches, node.name.lexeme ≠ touch.name) :
    node.announced (table.touchAll touches) = (node.announced table).touchAll touches := by
  induction touches generalizing table with
  | nil => rfl
  | cons first others induction =>
      rw [List.forall_mem_cons] at different
      have step : node.announced (table.touch first) = (node.announced table).touch first := by
        unfold announced
        split
        · rfl
        · exact SymbolTable.define_touch different.1
      exact (induction different.2).trans (congrArg (fun t => SymbolTable.touchAll t others) step)

theorem announced_announced_alike (different : node.name.lexeme ≠ second.name.lexeme) :
    (second.announced (node.announced table)).Alike (node.announced (second.announced table)) := by
  unfold announced
  split
  · exact .refl _
  · split
    · exact .refl _
    · exact SymbolTable.define_define_alike different

end Program

namespace Walk

theorem after_procedure (node : Program) (s : WalkState) : (procedure node).after s =
    (inside node).after ⟨node.announced s.table, node.announcement s.table ++ s.trace⟩ := by
  rw [procedure_eq, after_bind, Program.after_declare_procedure]

theorem value_procedure (node : Program) (s : WalkState) : (procedure node).value s =
    (inside node).value ⟨node.announced s.table, node.announcement s.table ++ s.trace⟩ := by
  rw [procedure_eq, value_bind, Program.after_declare_procedure]

theorem procedure_touches (node : Program) (s : WalkState) : ∃ touches events,
    (∀ touch ∈ touches, node.Mentions touch.name) ∧ (procedure node).after s =
      ⟨(node.announced s.table).touchAll touches,
        events ++ (node.announcement s.table ++ s.trace)⟩ := by
  rcases (Surroundings.mk ⟨node.announced s.table, node.announcement s.table ++ s.trace⟩
    ⟨node.announced s.table, node.announcement s.table ++ s.trace⟩ node.Mentions
    (fun _ _ => rfl) rfl).inside_framed node fun naming member => ⟨naming, member, rfl⟩ with
    ⟨_, touches, events, framed⟩
  rw [after_procedure]
  exact ⟨touches, events, framed.known, framed.first⟩

variable {node second : Program} {s : WalkState}

/-- Behind a procedure that it does not mention, a procedure does what it does without it. -/
theorem procedure_beside (different : node.name.lexeme ≠ second.name.lexeme)
    (apart : ¬second.Mentions node.name.lexeme) (s : WalkState) :
    (procedure second).value ((procedure node).after s) = (procedure second).value s ∧
      ∃ touches events, (∀ touch ∈ touches, second.Mentions touch.name) ∧
        (procedure second).after s = ⟨(second.announced s.table).touchAll touches,
          events ++ (second.announcement s.table ++ s.trace)⟩ ∧
        (procedure second).after ((procedure node).after s) =
          ⟨(second.announced ((procedure node).after s).table).touchAll touches,
            events ++ (second.announcement s.table ++ ((procedure node).after s).trace)⟩ := by
  rcases procedure_touches node s with ⟨marked, noted, _, first⟩
  have contains : ((procedure node).after s).table.current.contains second.name.lexeme =
      s.table.current.contains second.name.lexeme := by
    rw [first, SymbolTable.contains_touch_all, Program.contains_announced different]
  have announcement : second.announcement ((procedure node).after s).table =
      second.announcement s.table := by
    rw [Program.announcement, contains]
    rfl
  have agree : ∀ name, second.Mentions name →
      ((second.announced ((procedure node).after s).table).lookup name).map Entry.meaning =
        ((second.announced s.table).lookup name).map Entry.meaning := by
    intro name mentioned
    apply Program.meaning_announced _ contains
    have other : node.name.lexeme ≠ name := by
      intro same
      rw [same] at apart
      exact apart mentioned
    rw [first, SymbolTable.meaning_touch_all, Program.lookup_announced other]
  have depth : (second.announced ((procedure node).after s).table).depth =
      (second.announced s.table).depth := by
    rw [Program.depth_announced, Program.depth_announced, first, SymbolTable.depth_touch_all,
      Program.depth_announced]
  let around : Surroundings :=
    { outer := ⟨second.announced s.table, second.announcement s.table ++ s.trace⟩
      other := ⟨second.announced ((procedure node).after s).table,
        second.announcement ((procedure node).after s).table ++ ((procedure node).after s).trace⟩
      names := second.Mentions
      agree := agree
      depth := depth }
  rcases around.inside_framed second fun naming member => ⟨naming, member, rfl⟩ with
    ⟨values, touches, events, framed⟩
  rw [value_procedure, value_procedure, after_procedure second s,
    after_procedure second ((procedure node).after s)]
  apply And.intro values
  rw [← announcement]
  exact ⟨touches, events, framed.known, by rw [announcement]; exact framed.first, framed.second⟩

end Walk

/-- Procedures of different names that do not mention each other. -/
structure Program.Independent (first second : Program) : Prop where
  different : first.name.lexeme ≠ second.name.lexeme
  apart : ¬second.Mentions first.name.lexeme
  apart' : ¬first.Mentions second.name.lexeme

namespace Walk

theorem neighbours_alike {first second : Program} (independent : first.Independent second)
    (s : WalkState) :
    (procedure first).value ((procedure second).after s) = (procedure first).value s ∧
      (procedure second).value ((procedure first).after s) = (procedure second).value s ∧
      ((procedure second).after ((procedure first).after s)).Alike
        ((procedure first).after ((procedure second).after s)) := by
  rcases procedure_beside independent.different independent.apart s with
    ⟨values, touches, events, known, alone, behind⟩
  rcases procedure_beside independent.different.symm independent.apart' s with
    ⟨values', touches', events', known', alone', behind'⟩
  apply And.intro values'
  apply And.intro values
  have free : ∀ touch ∈ touches, first.name.lexeme ≠ touch.name := by
    intro touch member same
    exact independent.apart (same ▸ known touch member)
  have free' : ∀ touch ∈ touches', second.name.lexeme ≠ touch.name := by
    intro touch member same
    exact independent.apart' (same ▸ known' touch member)
  rw [behind, behind', alone, alone']
  constructor
  · dsimp only
    rw [Program.announced_touch_all free, Program.announced_touch_all free',
      SymbolTable.touch_all_comm _ touches touches']
    exact ((Program.announced_announced_alike independent.different).touch_all _).touch_all _
  · have swapped := WalkState.diagnostics_swap s.table (events' ++ first.announcement s.table)
      (events ++ second.announcement s.table) s.trace
    simp only [List.append_assoc] at swapped
    exact swapped

end Walk

end TinyPascal
