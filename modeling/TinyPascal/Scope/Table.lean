import TinyPascal.Failure
import TinyPascal.Scope.Basic

/-!
# The table of visible names

The global scope lies beneath a stack of procedure scopes. A name is looked up
from the innermost scope outwards, the global scope last.
-/

namespace TinyPascal

set_option autoImplicit false

/-- `inner` lists the procedure scopes, innermost first. -/
structure SymbolTable where
  global : Scope
  inner : List Scope
deriving DecidableEq, Repr

namespace SymbolTable

def empty : SymbolTable := ⟨[], []⟩

def depth (table : SymbolTable) : Nat := table.inner.length

def push (table : SymbolTable) : SymbolTable := { table with inner := [] :: table.inner }

/-- Closes the innermost procedure scope and hands it over. The global scope
stays open. -/
def pop (table : SymbolTable) : Except Failure (Scope × SymbolTable) :=
  match table.inner with
  | [] => .error (.internal "cannot pop the global scope")
  | scope :: outer => .ok (scope, { table with inner := outer })

/-- All scopes, innermost first. -/
def scopes (table : SymbolTable) : List Scope := table.inner ++ [table.global]

def current (table : SymbolTable) : Scope := table.inner.headD table.global

/-- The entry of the innermost scope that has the name. -/
def lookup (table : SymbolTable) (name : String) : Option Entry :=
  table.scopes.findSome? fun scope => scope.get? name

def lookupInCurrent (table : SymbolTable) (name : String) : Option Entry :=
  table.current.get? name

/-- Whether a further entry for `name` fits into the innermost scope, and the
table with it. A name that is taken there keeps its entry. -/
def define (table : SymbolTable) (name : String) (entry : Entry) : Bool × SymbolTable :=
  if table.current.contains name then (false, table)
  else
    match table.inner with
    | [] => (true, { table with global := table.global.push name entry })
    | scope :: outer => (true, { table with inner := scope.push name entry :: outer })

/-- Changes the entry of the innermost of the scopes that has the name. -/
def modifyInnermost (change : Entry → Entry) (name : String) (global : Scope) :
    List Scope → SymbolTable
  | [] => ⟨global.modify change name, []⟩
  | scope :: outer =>
      if scope.contains name then ⟨global, scope.modify change name :: outer⟩
      else
        let changed := modifyInnermost change name global outer
        { changed with inner := scope :: changed.inner }

/-- Changes the entry that `lookup` finds for `name`, and nothing else. -/
def modify (table : SymbolTable) (name : String) (change : Entry → Entry) : SymbolTable :=
  modifyInnermost change name table.global table.inner

/-- Whether `name` is visible, and the table with `entry` put in the place of
its own. -/
def redefine (table : SymbolTable) (name : String) (entry : Entry) : Bool × SymbolTable :=
  ((table.lookup name).isSome, table.modify name fun _ => entry)

def markUsed (table : SymbolTable) (name : String) : SymbolTable :=
  table.modify name fun entry => { entry with used := true }

def markInitialized (table : SymbolTable) (name : String) : SymbolTable :=
  table.modify name fun entry => { entry with initialized := true }

end SymbolTable

end TinyPascal
