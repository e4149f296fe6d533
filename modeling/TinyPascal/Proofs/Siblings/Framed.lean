import TinyPascal.Proofs.Siblings.Touches

/-!
# A procedure in two surroundings

The scopes around a procedure may hold whatever they like, as long as they agree on what the names
inside the procedure mean. The same is reported in both surroundings then, and the same names are
marked in them.
-/

namespace TinyPascal

set_option autoImplicit false

/-- Two surroundings of a part of a tree. They agree on what `names` mean. -/
structure Surroundings where
  outer : WalkState
  other : WalkState
  names : String → Prop
  agree : ∀ name, names name → (other.table.lookup name).map Entry.meaning =
    (outer.table.lookup name).map Entry.meaning
  depth : other.table.depth = outer.table.depth

namespace Surroundings

variable (around : Surroundings)

/-- The states of two walks that have opened the scopes `own`. Both have marked the same names
further out, and noted the same events. -/
structure Framed (own : List Scope) (touches : List Touch) (events : List WalkEvent)
    (s t : WalkState) : Prop where
  known : ∀ touch ∈ touches, around.names touch.name
  first : s = ⟨(around.outer.table.touchAll touches).under own, events ++ around.outer.trace⟩
  second : t = ⟨(around.other.table.touchAll touches).under own, events ++ around.other.trace⟩

/-- Between the opening of a first scope and its end. -/
def Inside (depth : Nat) (s t : WalkState) : Prop :=
  ∃ own touches events, own.length = depth + 1 ∧ around.Framed own touches events s t

variable {around} {own : List Scope} {touches : List Touch} {events : List WalkEvent}
  {s t : WalkState} {name : String}

namespace Framed

theorem meaning (framed : around.Framed own touches events s t) (known : around.names name) :
    (t.table.lookup name).map Entry.meaning = (s.table.lookup name).map Entry.meaning := by
  rw [framed.first, framed.second]
  dsimp only
  rw [SymbolTable.lookup_under, SymbolTable.lookup_under]
  cases own.findSome? fun scope => scope.get? name with
  | some entry => rfl
  | none =>
      rw [Option.none_or, Option.none_or, SymbolTable.meaning_touch_all,
        SymbolTable.meaning_touch_all, around.agree name known]

theorem depth (framed : around.Framed own touches events s t) : t.table.depth = s.table.depth := by
  rw [framed.first, framed.second]
  dsimp only
  rw [SymbolTable.depth_under, SymbolTable.depth_under, SymbolTable.depth_touch_all,
    SymbolTable.depth_touch_all, around.depth]

theorem noted (framed : around.Framed own touches events s t) (event : WalkEvent) :
    around.Framed own touches (event :: events) { s with trace := event :: s.trace }
      { t with trace := event :: t.trace } := by
  rw [framed.first, framed.second]
  exact ⟨framed.known, rfl, rfl⟩

theorem touched (framed : around.Framed own touches events s t) (touch : Touch)
    (known : around.names touch.name) : ∃ own' touches', own'.length = own.length ∧
      around.Framed own' touches' events { s with table := s.table.modify touch.name touch.change }
        { t with table := t.table.modify touch.name touch.change } := by
  rw [framed.first, framed.second]
  dsimp only
  by_cases has : (own.any fun scope => scope.contains touch.name) = true
  · rw [SymbolTable.modify_under_of_own touch.change has,
      SymbolTable.modify_under_of_own touch.change has]
    exact ⟨_, touches, Scope.length_modify_first _ _ _, framed.known, rfl, rfl⟩
  · rw [SymbolTable.modify_under_of_outer touch.change has,
      SymbolTable.modify_under_of_outer touch.change has]
    apply Exists.intro own
    apply Exists.intro (touches ++ [touch])
    apply And.intro rfl
    constructor
    · exact List.forall_mem_append.mpr ⟨framed.known, List.forall_mem_singleton.mpr known⟩
    · rw [SymbolTable.touch_all_append]
      rfl
    · rw [SymbolTable.touch_all_append]
      rfl

theorem declared {scope : Scope} (framed : around.Framed (scope :: own) touches events s t)
    (declared : Declared) : ∃ scope' events',
      around.Framed (scope' :: own) touches events' (declared.walk.after s)
        (declared.walk.after t) := by
  have current : s.table.current = scope ∧ t.table.current = scope := by
    rw [framed.first, framed.second]
    exact ⟨rfl, rfl⟩
  cases taken : scope.contains declared.name with
  | true =>
      rw [Declared.after_walk_of_taken (current.1 ▸ taken),
        Declared.after_walk_of_taken (current.2 ▸ taken), framed.first, framed.second]
      apply Exists.intro scope
      apply Exists.intro (declared.clashEvents ++ events)
      exact ⟨framed.known, by rw [List.append_assoc], by rw [List.append_assoc]⟩
  | false =>
      rw [Declared.after_walk_of_free (current.1 ▸ taken),
        Declared.after_walk_of_free (current.2 ▸ taken), framed.first, framed.second]
      dsimp only
      rw [SymbolTable.define_under_of_free taken, SymbolTable.define_under_of_free taken]
      exact ⟨_, events, framed.known, rfl, rfl⟩

theorem entered (framed : around.Framed own touches events s t) : ∃ events',
    around.Framed ([] :: own) touches events' (Walk.enterScope.after s)
      (Walk.enterScope.after t) := by
  rw [Walk.after_enter_scope, Walk.after_enter_scope, framed.depth, framed.first, framed.second]
  exact ⟨_ :: events, framed.known, rfl, rfl⟩

theorem left {scope : Scope} (framed : around.Framed (scope :: own) touches events s t) :
    ∃ events', around.Framed own touches events' (Walk.leaveScope.after s)
      (Walk.leaveScope.after t) := by
  have opened : s.table.inner = scope :: (own ++ (around.outer.table.touchAll touches).inner) ∧
      t.table.inner = scope :: (own ++ (around.other.table.touchAll touches).inner) := by
    rw [framed.first, framed.second]
    exact ⟨rfl, rfl⟩
  rw [Walk.after_leave_scope opened.1, Walk.after_leave_scope opened.2, framed.depth, framed.first,
    framed.second]
  apply Exists.intro (((Walk.unusedFindings scope).map .reported).reverse ++
    .left s.table.depth scope.length :: events)
  constructor
  · exact framed.known
  · rw [List.append_assoc, framed.first]
    rfl
  · rw [List.append_assoc, framed.first]
    rfl

end Framed

/-- Inside a procedure, the two surroundings make no difference. -/
def kinship (around : Surroundings) : Kinship where
  related := around.Inside
  places _ := True
  names := around.names
  meaning := by
    intro depth s t name states known
    rcases states with ⟨own, touches, events, _, framed⟩
    exact framed.meaning known
  inCurrent := by
    intro depth s t name states _
    rcases states with ⟨own, touches, events, size, framed⟩
    rcases List.exists_cons_of_length_eq_add_one size with ⟨scope, others, rfl⟩
    rw [framed.first, framed.second]
    rfl
  arithmetic := by
    intro depth s t op type states
    rcases states with ⟨own, touches, events, size, framed⟩
    exact ⟨own, touches, _, size, framed.noted _⟩
  report := by
    intro depth s t token problem states _
    rcases states with ⟨own, touches, events, size, framed⟩
    exact ⟨own, touches, _, size, framed.noted _⟩
  markUsed := by
    intro depth s t name states known
    rcases states with ⟨own, touches, events, size, framed⟩
    rcases framed.touched (.used name) known with ⟨own', touches', same, marked⟩
    exact ⟨own', touches', events, same.trans size, marked⟩
  markInitialized := by
    intro depth s t name states known
    rcases states with ⟨own, touches, events, size, framed⟩
    rcases framed.touched (.initialized name) known with ⟨own', touches', same, marked⟩
    exact ⟨own', touches', events, same.trans size, marked⟩
  declare := by
    intro depth s t declared states _ _
    rcases states with ⟨own, touches, events, size, framed⟩
    rcases List.exists_cons_of_length_eq_add_one size with ⟨scope, others, rfl⟩
    rcases framed.declared declared with ⟨scope', events', defined⟩
    exact ⟨scope' :: others, touches, events', size, defined⟩
  enter := by
    intro depth s t states
    rcases states with ⟨own, touches, events, size, framed⟩
    rcases framed.entered with ⟨events', entered⟩
    exact ⟨[] :: own, touches, events', congrArg Nat.succ size, entered⟩
  leave := by
    intro depth s t states
    rcases states with ⟨own, touches, events, size, framed⟩
    rcases List.exists_cons_of_length_eq_add_one size with ⟨scope, others, rfl⟩
    rcases framed.left with ⟨events', left⟩
    exact ⟨others, touches, events', Nat.succ.inj size, left⟩

/-- A procedure without its own declaration, in either surroundings: it gets the same types, the
same is noted, and the same names are marked. -/
theorem inside_framed (around : Surroundings) (node : Program)
    (known : ∀ naming ∈ node.innerNamings, around.names naming.name) :
    (Walk.inside node).value around.other = (Walk.inside node).value around.outer ∧
      ∃ touches events, around.Framed [] touches events ((Walk.inside node).after around.outer)
        ((Walk.inside node).after around.other) := by
  have start : around.Framed [] [] [] around.outer around.other :=
    ⟨List.forall_mem_nil _, rfl, rfl⟩
  rcases start.entered with ⟨entering, entered⟩
  have agree := (kinship around).agree_contents node (fun _ _ => trivial) known 0
  rcases agree _ _ ⟨_, _, _, rfl, entered⟩ with ⟨values, own, touches, events, size, framed⟩
  rcases List.length_eq_one_iff.mp size with ⟨scope, rfl⟩
  rcases framed.left with ⟨events', left⟩
  constructor
  · exact congrArg (fun checked => { node with procedures := checked.1, body := checked.2 }) values
  · exact ⟨touches, events', left⟩

end Surroundings

end TinyPascal
