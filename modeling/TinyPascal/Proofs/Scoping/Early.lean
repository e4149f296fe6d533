import TinyPascal.Parser.Program
import TinyPascal.Proofs.Scoping.Findings
import TinyPascal.Proofs.Scoping.Timely

/-!
# Variables that are read too early

A variable is read too early if it belongs to the very scope of the reading and nothing further
up on the itinerary has given it a value. The checker reports this at the reading and nowhere
else. Variables of scopes further out are never reported: by the time the procedure is called
they may have a value.
-/

namespace TinyPascal

set_option autoImplicit false

theorem Declared.uninitialized_iff (declared : Declared) :
    declared.entry.initialized = false ↔ ∃ token type, declared = .var token type := by
  cases declared <;> simp [Declared.entry, Entry.ofProgram, Entry.ofProcedure, Entry.ofParam,
    Entry.ofVariable]

namespace Stops

variable {past : Stops} {scope scope' : Address} {name : String}

/-- Behind `past` the name stands for a variable of `scope` itself, and nothing in `past` that
gives a value to a name gave it to this variable. -/
def Unset (past : Stops) (scope : Address) (name : String) : Prop :=
  ∃ token type, resolve past scope name = some ⟨scope, .var token type⟩ ∧
    ∀ before place target behind, past = before ++ ⟨place, .naming (.assigned target)⟩ :: behind →
      resolve before place target.lexeme ≠ some ⟨scope, .var token type⟩

def isUnset (past : Stops) (scope : Address) (name : String) : Bool :=
  match firstIn past scope name with
  | some declared => !declared.entry.initialized && !touched Naming.assigns past ⟨scope, declared⟩
  | none => false

/-- What a scope has declared itself hides what is further out. -/
theorem resolve_here (past : Stops) (scope : Address) (declared : Declared) (name : String) :
    resolve past scope name = some ⟨scope, declared⟩ ↔
      firstIn past scope name = some declared := by
  constructor
  · intro found
    exact (resolve_eq_some found).2
  · intro first
    rw [resolve, tails_eq_cons, List.findSome?_cons, first]
    rfl

/-- A declaration was assigned to if it is a variable and some assignment stands for it. -/
theorem touched_assigns {binding : Binding} :
    touched Naming.assigns past binding = true ↔
      (∃ type, binding.declared.meaning = .variableOf type) ∧
        ∃ before place target behind,
          past = before ++ ⟨place, .naming (.assigned target)⟩ :: behind ∧
            resolve before place target.lexeme = some binding := by
  unfold touched
  rw [List.any_eq_true]
  constructor
  · intro happened
    rcases happened with ⟨⟨before, place, act⟩, member, touches⟩
    rcases mem_with_past.mp member with ⟨front, behind, parts, same⟩
    rw [List.nil_append] at same
    rw [← same] at parts
    cases act with
    | naming naming =>
        simp only [Stop.touches, Bool.and_eq_true, decide_eq_true_eq] at touches
        cases naming with
        | assigned target =>
            constructor
            · cases meaning : binding.declared.meaning with
              | variableOf type => exact ⟨type, rfl⟩
              | procedureOn params => simp [Naming.assigns, meaning] at touches
              | programName => simp [Naming.assigns, meaning] at touches
            · exact ⟨before, place, target, behind, parts, touches.1⟩
        | declare declared => simp [Naming.assigns] at touches
        | mention how token => simp [Naming.assigns] at touches
    | enter => cases touches
    | leave => cases touches
    | finish => cases touches
  · intro happened
    rcases happened with ⟨⟨type, meaning⟩, before, place, target, behind, parts, found⟩
    apply Exists.intro (before, ⟨place, .naming (.assigned target)⟩)
    constructor
    · exact mem_with_past.mpr ⟨before, behind, parts, rfl⟩
    · have same : resolve before place (Naming.assigned target).name = some binding := found
      simp [Stop.touches, same, Naming.assigns, meaning]

theorem is_unset_iff (past : Stops) (scope : Address) (name : String) :
    isUnset past scope name = true ↔ Unset past scope name := by
  unfold isUnset Unset
  cases first : firstIn past scope name with
  | none =>
      constructor
      · intro impossible
        cases impossible
      · intro unset
        rcases unset with ⟨token, type, found, _⟩
        rw [resolve_here, first] at found
        cases found
  | some declared =>
      rw [Bool.and_eq_true, Bool.not_eq_true', Bool.not_eq_true', Declared.uninitialized_iff,
        Bool.eq_false_iff, Ne, touched_assigns]
      constructor
      · intro both
        rcases both with ⟨⟨token, type, rfl⟩, untouched⟩
        apply Exists.intro token
        apply Exists.intro type
        apply And.intro ((resolve_here _ _ _ _).mpr first)
        intro before place target behind parts found
        exact untouched ⟨⟨type, rfl⟩, before, place, target, behind, parts, found⟩
      · intro unset
        rcases unset with ⟨token, type, found, never⟩
        rw [resolve_here, first, Option.some.injEq] at found
        apply And.intro ⟨token, type, found⟩
        intro happened
        rcases happened with ⟨_, before, place, target, behind, parts, stands⟩
        rw [found] at stands
        exact never before place target behind parts stands

instance (past : Stops) (scope : Address) (name : String) : Decidable (Unset past scope name) :=
  decidable_of_iff _ (is_unset_iff past scope name)

theorem Stands.lacks_value {table : SymbolTable} (stands : Stands past scope table)
    (name : String) : table.lacksValue name = decide (Unset past scope name) := by
  have same : table.lacksValue name = isUnset past scope name := by
    unfold SymbolTable.lacksValue SymbolTable.lookupInCurrent isUnset
    rw [stands.current.1, get?_scope_now, stands.lookup]
    cases first : firstIn past scope name with
    | none => rfl
    | some declared =>
        rw [(resolve_here past scope declared name).mpr first]
        simp [now, Bool.not_or]
  rw [same, ← Bool.decide_coe (isUnset past scope name)]
  exact decide_eq_decide.mpr (is_unset_iff past scope name)

end Stops

def Stop.early (past : Stops) (stop : Stop) : Diagnostics :=
  match stop.act with
  | .naming (.mention how token) =>
      if how.isRead ∧ Stops.Unset past stop.scope token.lexeme then
        [Walk.finding token (.uninitialized token.lexeme)]
      else []
  | _ => []

namespace Stops

variable {past : Stops} {scope scope' : Address} {stop : Stop} {s : WalkState}

theorem Stands.warns_mention (stands : Stands past scope s.table) (how : Mention) (token : Token)
    (expected : Option ScalarType) :
    Walk.Warns (how.walk expected token) s
      (Stop.early past ⟨scope, .naming (.mention how token)⟩) := by
  have warns := how.warns_walk expected token s
  rw [stands.lacks_value] at warns
  unfold Stop.early
  simpa using warns

theorem Stands.warns (stands : Stands past scope s.table) (move : stop.Moves scope scope')
    (expected : Option ScalarType) :
    Walk.Warns (stop.act.walk expected) s (stop.early past) := by
  cases move with
  | naming _ naming =>
      cases naming with
      | declare declared => exact declared.timely_walk.bind (fun _ => Walk.timely_pure _) s
      | mention how token => exact stands.warns_mention how token expected
      | assigned token => exact (Naming.timely_assign token).bind (fun _ => Walk.timely_pure _) s
  | enter _ index => exact Walk.timely_enter_scope.bind (fun _ => Walk.timely_pure _) s
  | leave _ index => exact Walk.timely_leave_scope.bind (fun _ => Walk.timely_pure _) s
  | finish =>
      exact Walk.timely_table_bind (fun _ => (Walk.timely_report_unused _).bind
        fun _ => Walk.timely_pure _) s

/-- What has been reported by now is what the stops so far report. -/
def WarnedBy (past : Stops) (s : WalkState) : Prop :=
  s.early = (withPast [] past).flatMap fun (past, stop) => stop.early past

theorem WarnedBy.pass (warned : WarnedBy past s) (stands : Stands past scope s.table)
    (move : stop.Moves scope scope') (expected : Option ScalarType) :
    WarnedBy (past ++ [stop]) ((stop.act.walk expected).after s) := by
  have warns : ((stop.act.walk expected).after s).early = s.early ++ stop.early past :=
    stands.warns move expected
  unfold WarnedBy at warned ⊢
  rw [warns, warned, with_past_append, List.flatMap_append]
  simp [withPast]

theorem warned_by_program (program : Program) :
    WarnedBy program.itinerary ((Walk.program program).after .start) := by
  have outset : WarnedBy [] .start := rfl
  have whole : WarnedBy ([] ++ program.itinerary) ((Walk.program program).after .start) :=
    (Walk.reaches_program program .start).invariant
      (fun warned idles => idles.early.trans warned)
      (fun expected warned stands move => warned.pass stands move expected)
      outset stands_start program.itinerary_leads program.itinerary_apart
  exact whole

end Stops

namespace Walk

/-- A variable that is read before it has a value is reported there, and nothing else is. The
walk over a program gets to every name that is read in an expression. It reports the name exactly
if that stands for a variable of the scope in which the reading lies, not for a parameter, and no
assignment or start of a counting loop further up on the itinerary stands for the same
declaration. On the itinerary the procedures of a scope come before its body, the value of an
assignment before its target is given that value, the bound and the body of a counting loop
behind its start, and both branches of a choice one after the other. -/
theorem early_readings_are_reported (program : Program) :
    (∀ before scope how token behind,
      program.itinerary = before ++ ⟨scope, .naming (.mention how token)⟩ :: behind →
        how.isRead = true →
          (∃ s expected types more, Stops.Reaches before types .start s ∧
            Stops.Reaches behind more ((how.walk expected token).after s)
              ((Walk.program program).after .start)) ∧
          ∀ s types expected, Stops.Reaches before types .start s →
            (Stops.Unset before scope token.lexeme →
              ((how.walk expected token).after s).early =
                s.early ++ [finding token (.uninitialized token.lexeme)]) ∧
            (¬Stops.Unset before scope token.lexeme →
              ((how.walk expected token).after s).early = s.early)) ∧
    Diagnostics.early (Analysis.ofProgram program).diagnostics =
      (Stops.withPast [] program.itinerary).flatMap fun (past, stop) => stop.early past := by
  constructor
  · intro before scope how token behind parts read
    apply And.intro (Stops.reaches_stop parts)
    intro s types expected reaches
    rcases reaches.arrived parts with ⟨between, next, stands, move⟩
    cases move
    have warns : ((how.walk expected token).after s).early = s.early ++
        Stop.early before ⟨scope, .naming (.mention how token)⟩ :=
      stands.warns_mention how token expected
    constructor
    · intro unset
      rw [warns]
      simp [Stop.early, read, unset]
    · intro set
      rw [warns]
      simp [Stop.early, set]
  · exact Stops.warned_by_program program

/-- A procedure gives a value to a variable of the program, and the body of the program, which
comes later, may read it. A variable of the procedure itself is read too early. -/
theorem only_own_variable_is_read_early :
    ∃ (program : Program) (before behind : Stops) (token : Token) (s : WalkState),
      program.itinerary =
          before ++ ⟨[0], .naming (.mention (.operand none) token)⟩ :: behind ∧
        token.lexeme = "y" ∧
        (((Mention.operand none).walk (some .integer) token).after s).early =
          s.early ++ [finding token (.uninitialized "y")] ∧
        Diagnostics.messages (Diagnostics.early (Analysis.ofProgram program).diagnostics) =
          ["Variable 'y' was not initialized.", "Variable 'z' was not initialized."] := by
  let program := (Parse.ofText ("program p; var x, z: integer; procedure q(a: integer); " ++
    "var y: integer; begin x := y + a + z end; begin z := x + z; z := z end.")).program
  let token : Token := ⟨.ident, "y", ⟨1, 83, 82⟩⟩
  have parts : program.itinerary = program.itinerary.take 8 ++
      ⟨[0], .naming (.mention (.operand none) token)⟩ :: program.itinerary.drop 9 := by
    decide +kernel
  have unset : Stops.Unset (program.itinerary.take 8) [0] "y" := by decide +kernel
  rcases early_readings_are_reported program with ⟨occurrences, whole⟩
  rcases occurrences _ _ _ token _ parts rfl with ⟨⟨s, _, types, _, reaches, _⟩, reports⟩
  have here := (reports s types (some .integer) reaches).1 unset
  have messages : Diagnostics.messages
      (Diagnostics.early (Analysis.ofProgram program).diagnostics) =
        ["Variable 'y' was not initialized.", "Variable 'z' was not initialized."] := by
    rw [whole]
    decide +kernel
  exact ⟨program, _, _, token, s, parts, rfl, here, messages⟩

end Walk

end TinyPascal
