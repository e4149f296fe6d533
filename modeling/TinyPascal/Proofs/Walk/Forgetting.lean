import TinyPascal.Proofs.Parallel.Whole
import TinyPascal.Proofs.Walk.Basic
import TinyPascal.Proofs.Walk.Marks

/-!
# What a walk can be kept from

A forgetting shows trees, tables and traces with something left out: of tokens what a view leaves
out, of the types in a tree what `mark` leaves out, and of diagnostics what follows from the
tokens they are about. `Forgetting.types` leaves out the types that a tree holds, and
`Forgetting.places` the places of its tokens.
-/

namespace TinyPascal

set_option autoImplicit false

/-- A forgetting does nothing more when it is done twice. -/
structure Forgetting extends View where
  again : ∀ token, look (look token) = look token
  mark : Option ScalarType → Option ScalarType
  mark_again : ∀ resolved, mark (mark resolved) = mark resolved
  spot : Diagnostic → Diagnostic
  spot_about : ∀ (severity : Severity) (token : Token) (problem : Problem),
    spot (.about severity token problem) = .about severity (look token) problem

namespace Forgetting

/-- Wipes out the types that a tree holds. -/
def types : Forgetting where
  toView := .whole
  again _ := rfl
  mark _ := none
  mark_again _ := rfl
  spot := id
  spot_about _ _ _ := rfl

/-- Puts everything at the start of the text. -/
def places : Forgetting where
  toView := .bare
  again _ := rfl
  mark := id
  mark_again _ := rfl
  spot diagnostic :=
    { diagnostic with line := Position.start.line, column := Position.start.column }
  spot_about _ _ _ := rfl

end Forgetting

section Trees

variable (f : Forgetting)

namespace Expr

def shown (expr : Expr) : Expr := (expr.marked f.mark).seen f.toView

theorem shown_binary (op : Token) (left right : Expr) (resolved : Option ScalarType) :
    (binary op left right resolved).shown f =
      binary (f.look op) (left.shown f) (right.shown f) (f.mark resolved) := rfl

theorem shown_unary (op : Token) (operand : Expr) :
    (unary op operand).shown f = unary (f.look op) (operand.shown f) := rfl

theorem shown_name (token : Token) (resolved : Option ScalarType) :
    (name token resolved).shown f = name (f.look token) (f.mark resolved) := rfl

theorem shown_call (token : Token) (args : List Expr) (resolved : Option ScalarType) :
    (call token args resolved).shown f =
      call (f.look token) (args.map (shown f)) (f.mark resolved) := by
  rw [shown, marked, seen, all_marked_eq, all_seen_eq, List.map_map]
  rfl

theorem shown_literal (token : Token) : (literal token).shown f = literal (f.look token) := rfl

end Expr

def Assignment.shown (assignment : Assignment) : Assignment :=
  (assignment.marked f.mark).seen f.toView

theorem Assignment.shown_mk (op target : Token) (value : Expr) :
    Assignment.shown f ⟨op, target, value⟩ = ⟨f.look op, f.look target, value.shown f⟩ := rfl

theorem Assignment.shown_looked (op target : Token) {value value' : Expr}
    (values : value'.shown f = value.shown f) :
    Assignment.shown f ⟨f.look op, f.look target, value'⟩ =
      Assignment.shown f ⟨op, target, value⟩ := by
  rw [shown_mk, shown_mk, f.again, f.again, values]

namespace Command

def shown (command : Command) : Command := (command.marked f.mark).seen f.toView

theorem shown_assign (assignment : Assignment) :
    (assign assignment).shown f = assign (assignment.shown f) := rfl

theorem shown_call (token : Token) (args : Option (List Expr)) (resolved : Option ScalarType) :
    (call token args resolved).shown f =
      call (f.look token) (args.map (List.map (Expr.shown f))) (f.mark resolved) := by
  cases args with
  | none => rfl
  | some args =>
      rw [shown, marked, seen, Option.map_some, Option.map_some, List.map_map]
      rfl

theorem shown_if_then (keyword : Token) (condition : Expr) (branch : Command) :
    (ifThen keyword condition branch).shown f =
      ifThen (f.look keyword) (condition.shown f) (branch.shown f) := rfl

theorem shown_if_else (keyword : Token) (condition : Expr) (branch otherwise : Command) :
    (ifElse keyword condition branch otherwise).shown f =
      ifElse (f.look keyword) (condition.shown f) (branch.shown f) (otherwise.shown f) := rfl

theorem shown_while_do (keyword : Token) (condition : Expr) (body : Command) :
    (whileDo keyword condition body).shown f =
      whileDo (f.look keyword) (condition.shown f) (body.shown f) := rfl

theorem shown_for_do (keyword : Token) (start : Assignment) (direction : Direction) (bound : Expr)
    (body : Command) :
    (forDo keyword start direction bound body).shown f =
      forDo (f.look keyword) (start.shown f) direction (bound.shown f) (body.shown f) := rfl

theorem shown_block (opening : Token) (commands : List Command) :
    (block opening commands).shown f = block (f.look opening) (commands.map (shown f)) := by
  rw [shown, marked, seen, all_marked_eq, all_seen_eq, List.map_map]
  rfl

end Command

namespace Variables

theorem entries_seen (vars : Variables) :
    (vars.seen f.toView).entries = vars.entries.map (Prod.map f.look f.look) := by
  rw [entries, entries, List.map_flatMap, seen, List.flatMap_map]
  congr
  funext declaration
  rw [Declaration.seen, List.map_map, List.map_map]
  rfl

theorem getd_entries_seen (vars : Option Variables) :
    ((vars.map (seen f.toView)).map entries).getD [] =
      ((vars.map entries).getD []).map (Prod.map f.look f.look) := by
  cases vars with
  | none => rfl
  | some vars => exact entries_seen f vars

theorem seen_again (vars : Option Variables) :
    (vars.map (seen f.toView)).map (seen f.toView) = vars.map (seen f.toView) := by
  have looks : f.look ∘ f.look = f.look := funext f.again
  have declarations : Declaration.seen f.toView ∘ Declaration.seen f.toView =
      Declaration.seen f.toView := by
    funext declaration
    simp only [Function.comp_apply, Declaration.seen, f.again, List.map_map, looks]
  have twice : seen f.toView ∘ seen f.toView = seen f.toView := by
    funext vars
    simp only [Function.comp_apply, seen, f.again, List.map_map, declarations]
  rw [Option.map_map, twice]

end Variables

namespace Program

def shown (program : Program) : Program := (program.marked f.mark).seen f.toView

theorem shown_mk (keyword name : Token) (params locals : Option Variables)
    (procedures : List Program) (opening : Token) (body : List Command) :
    Program.shown f ⟨keyword, name, params, locals, procedures, opening, body⟩ =
      ⟨f.look keyword, f.look name, params.map (Variables.seen f.toView),
        locals.map (Variables.seen f.toView), procedures.map (shown f), f.look opening,
        body.map (Command.shown f)⟩ := by
  rw [shown, marked, seen, all_marked_eq, all_seen_eq, List.map_map, List.map_map]
  rfl

theorem shown_looked (keyword name : Token) (params locals : Option Variables)
    {procedures procedures' : List Program} (opening : Token) {body body' : List Command}
    (inner : procedures'.map (shown f) = procedures.map (shown f))
    (bodies : body'.map (Command.shown f) = body.map (Command.shown f)) :
    Program.shown f ⟨f.look keyword, f.look name, params.map (Variables.seen f.toView),
      locals.map (Variables.seen f.toView), procedures', f.look opening, body'⟩ =
      Program.shown f ⟨keyword, name, params, locals, procedures, opening, body⟩ := by
  rw [shown_mk, shown_mk, f.again, f.again, f.again, Variables.seen_again, Variables.seen_again,
    inner, bodies]

end Program

end Trees

/-- Of a declared name, only the token can look different. -/
def Entry.seen (view : View) (entry : Entry) : Entry := { entry with token := view.look entry.token }

theorem Entry.initialized_seen (view : View) (entry : Entry) :
    (entry.seen view).initialized = entry.initialized := rfl

theorem Entry.map_meaning_seen (view : View) (found : Option Entry) :
    (found.map (seen view)).map meaning = found.map meaning := by
  cases found <;> rfl

theorem Entry.bind_type_seen (view : View) (found : Option Entry) :
    (found.map (seen view)).bind type? = found.bind type? := by
  cases found <;> rfl

namespace Scope

variable (view : View)

def seen (scope : Scope) : Scope := scope.map (Prod.map id (Entry.seen view))

theorem get?_seen (scope : Scope) (name : String) :
    (scope.seen view).get? name = (scope.get? name).map (Entry.seen view) := by
  induction scope with
  | nil => rfl
  | cons pair scope induction =>
      change get? ((pair.1, pair.2.seen view) :: seen view scope) name = _
      rw [get?_cons, get?_cons, induction]
      by_cases same : pair.1 = name
      · rw [if_pos same, if_pos same, Option.map_some]
      · rw [if_neg same, if_neg same]

theorem length_seen (scope : Scope) : (scope.seen view).length = scope.length := List.length_map _

theorem contains_seen (scope : Scope) (name : String) :
    (scope.seen view).contains name = scope.contains name := by
  rw [contains, get?_seen, Option.isSome_map]
  rfl

theorem push_seen (scope : Scope) (name : String) (entry : Entry) :
    (scope.push name entry).seen view = (scope.seen view).push name (entry.seen view) :=
  List.map_append

theorem modify_seen {change : Entry → Entry}
    (blind : ∀ entry : Entry, (change entry).seen view = change (entry.seen view)) (name : String)
    (scope : Scope) :
    (scope.modify change name).seen view = (scope.seen view).modify change name := by
  induction scope with
  | nil => rfl
  | cons pair scope induction =>
      rw [modify_cons, seen, List.map_cons, seen, List.map_cons, Prod.map, Prod.map, modify_cons]
      congr 1
      by_cases same : pair.1 = name
      · simp [same, blind]
      · simp [same]

theorem modify_first_seen {change : Entry → Entry}
    (blind : ∀ entry : Entry, (change entry).seen view = change (entry.seen view)) (name : String)
    (scopes : List Scope) :
    (modifyFirst change name scopes).map (seen view) =
      modifyFirst change name (scopes.map (seen view)) := by
  induction scopes with
  | nil => rfl
  | cons scope outer induction =>
      rw [List.map_cons, modifyFirst, modifyFirst, contains_seen]
      split
      · rw [List.map_cons, modify_seen view blind]
      · rw [List.map_cons, induction]

theorem unused_seen (scope : Scope) : (scope.seen view).unused = scope.unused.seen view :=
  List.filter_map

end Scope

namespace SymbolTable

variable (view : View)

def seen (table : SymbolTable) : SymbolTable :=
  ⟨table.global.seen view, table.inner.map (Scope.seen view)⟩

theorem scopes_seen (table : SymbolTable) :
    (table.seen view).scopes = table.scopes.map (Scope.seen view) := by
  rw [scopes, scopes, List.map_append]
  rfl

theorem current_seen (table : SymbolTable) :
    (table.seen view).current = table.current.seen view := by
  unfold current seen
  cases table.inner <;> rfl

theorem lookup_seen (table : SymbolTable) (name : String) :
    (table.seen view).lookup name = (table.lookup name).map (Entry.seen view) := by
  unfold lookup
  rw [scopes_seen]
  induction table.scopes with
  | nil => rfl
  | cons scope outer induction =>
      rw [List.map_cons, List.findSome?_cons, List.findSome?_cons, Scope.get?_seen, induction]
      cases scope.get? name <;> rfl

theorem lookup_in_current_seen (table : SymbolTable) (name : String) :
    (table.seen view).lookupInCurrent name =
      (table.lookupInCurrent name).map (Entry.seen view) := by
  rw [lookupInCurrent, current_seen, Scope.get?_seen]
  rfl

theorem define_seen (table : SymbolTable) (name : String) (entry : Entry) :
    (table.seen view).define name (entry.seen view) =
      ((table.define name entry).1, (table.define name entry).2.seen view) := by
  have same : (table.seen view).current.contains name = table.current.contains name := by
    rw [current_seen, Scope.contains_seen]
  cases taken : table.current.contains name with
  | true =>
      rw [taken] at same
      rw [define_of_taken taken, define_of_taken same]
  | false =>
      rw [taken] at same
      rcases @define_of_free table name entry taken with ⟨fresh, scopes⟩
      rcases @define_of_free (table.seen view) name (entry.seen view) same with ⟨fresh', scopes'⟩
      have tables : ((table.seen view).define name (entry.seen view)).2 =
          (table.define name entry).2.seen view := by
        apply ext_scopes
        rw [scopes', scopes_seen, scopes_seen, scopes, List.map_cons, Scope.push_seen,
          current_seen, List.map_tail]
      apply Prod.ext
      · rw [fresh, fresh']
      · exact tables

theorem depth_seen (table : SymbolTable) : (table.seen view).depth = table.depth :=
  List.length_map _

theorem push_seen (table : SymbolTable) : (table.seen view).push = table.push.seen view := rfl

theorem pop_seen (table : SymbolTable) :
    (table.seen view).pop = table.pop.map (Prod.map (Scope.seen view) (seen view)) := by
  rcases table with ⟨global, inner⟩
  cases inner <;> rfl

theorem modify_seen {change : Entry → Entry}
    (blind : ∀ entry : Entry, (change entry).seen view = change (entry.seen view))
    (table : SymbolTable) (name : String) :
    (table.seen view).modify name change = (table.modify name change).seen view := by
  apply ext_scopes
  rw [scopes_modify, scopes_seen, scopes_seen, scopes_modify, Scope.modify_first_seen view blind]

theorem mark_used_seen (table : SymbolTable) (name : String) :
    (table.seen view).markUsed name = (table.markUsed name).seen view := by
  unfold markUsed
  apply modify_seen
  intro entry
  rfl

theorem mark_initialized_seen (table : SymbolTable) (name : String) :
    (table.seen view).markInitialized name = (table.markInitialized name).seen view := by
  unfold markInitialized
  apply modify_seen
  intro entry
  rfl

end SymbolTable

theorem Expr.is_integer_shown (f : Forgetting) (table : SymbolTable) (expr : Expr) :
    (expr.shown f).isInteger (table.seen f.toView) = expr.isInteger table := by
  fun_induction Expr.isInteger table expr with
  | case1 token => rw [shown_literal, isInteger, f.kind]
  | case2 token resolved =>
      rw [shown_name, isInteger, f.lexeme, SymbolTable.lookup_seen, Entry.bind_type_seen]
  | case3 token args resolved => rw [shown_call, isInteger]
  | case4 op operand operand_ih => rw [shown_unary, isInteger, f.kind, operand_ih]
  | case5 op left right resolved left_ih right_ih =>
      rw [shown_binary, isInteger, f.kind, left_ih, right_ih]

section States

variable (f : Forgetting)

def WalkEvent.shown : WalkEvent → WalkEvent
  | reported diagnostic => reported (f.spot diagnostic)
  | entered depth => entered depth
  | left depth names => left depth names
  | arithmetic op type => arithmetic (f.look op) type

def WalkState.shown (s : WalkState) : WalkState :=
  ⟨s.table.seen f.toView, s.trace.map (WalkEvent.shown f)⟩

theorem WalkState.shown_start : WalkState.start.shown f = .start := rfl

end States

namespace Forgetting

/-- Tables and traces hold no types that could be left out. -/
theorem shown_types (s : WalkState) : s.shown .types = s := by
  have entries : Prod.map id (Entry.seen types.toView) = (id : String × Entry → String × Entry) := rfl
  have scopes : Scope.seen types.toView = id := by
    funext scope
    rw [Scope.seen, entries, List.map_id]
    rfl
  have events : WalkEvent.shown types = id := by
    funext event
    cases event <;> rfl
  rw [WalkState.shown, SymbolTable.seen, scopes, List.map_id, events, List.map_id]
  rfl

end Forgetting

theorem Program.shown_types (program : Program) : program.shown .types = program.unresolved :=
  seen_whole _

theorem Program.shown_places (program : Program) : program.shown .places = program.seen .bare :=
  congrArg (seen .bare) (marked_id program)

end TinyPascal
