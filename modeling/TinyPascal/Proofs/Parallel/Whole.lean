import TinyPascal.Proofs.Parallel.Rules

/-!
# Parses that agree in everything

The view that forgets nothing shows every tree as it is. Two steps that keep
equality are therefore one step, whatever their bounds, and a property of states
that every move keeps is kept by a whole parse.
-/

namespace TinyPascal

set_option autoImplicit false

namespace Expr

mutual

theorem seen_whole : (expr : Expr) → expr.seen .whole = expr
  | binary op left right resolved => by
      rw [seen, seen_whole left, seen_whole right]
      rfl
  | unary op operand => by
      rw [seen, seen_whole operand]
      rfl
  | name _ _ => rfl
  | call token args resolved => by
      rw [seen, all_seen_whole args]
      rfl
  | literal _ => rfl

theorem all_seen_whole : (args : List Expr) → allSeen .whole args = args
  | [] => rfl
  | first :: others => by rw [allSeen, seen_whole first, all_seen_whole others]

end

theorem seen_whole_eq : seen .whole = id := funext seen_whole

end Expr

theorem Assignment.seen_whole (assignment : Assignment) : assignment.seen .whole = assignment := by
  rw [seen, Expr.seen_whole]
  rfl

namespace Command

mutual

theorem seen_whole : (command : Command) → command.seen .whole = command
  | assign assignment => by rw [seen, Assignment.seen_whole]
  | call token args resolved => by
      rw [seen, Expr.seen_whole_eq, List.map_id_fun, Option.map_id_fun]
      rfl
  | ifThen keyword condition branch => by
      rw [seen, Expr.seen_whole, seen_whole branch]
      rfl
  | ifElse keyword condition branch otherwise => by
      rw [seen, Expr.seen_whole, seen_whole branch, seen_whole otherwise]
      rfl
  | whileDo keyword condition body => by
      rw [seen, Expr.seen_whole, seen_whole body]
      rfl
  | forDo keyword start direction bound body => by
      rw [seen, Assignment.seen_whole, Expr.seen_whole, seen_whole body]
      rfl
  | block opening commands => by
      rw [seen, all_seen_whole commands]
      rfl

theorem all_seen_whole : (commands : List Command) → allSeen .whole commands = commands
  | [] => rfl
  | first :: others => by rw [allSeen, seen_whole first, all_seen_whole others]

end

theorem seen_whole_eq : seen .whole = id := funext seen_whole

end Command

theorem Declaration.seen_whole_eq : Declaration.seen .whole = id := by
  funext declaration
  rw [seen, show View.whole.look = id from rfl, List.map_id]
  rfl

theorem Variables.seen_whole_eq : Variables.seen .whole = id := by
  funext vars
  rw [seen, Declaration.seen_whole_eq, List.map_id]
  rfl

namespace Program

mutual

theorem seen_whole : (program : Program) → program.seen .whole = program
  | ⟨keyword, name, params, locals, procedures, opening, body⟩ => by
      rw [seen, all_seen_whole procedures, Variables.seen_whole_eq, Command.seen_whole_eq,
        Option.map_id, List.map_id]
      rfl

theorem all_seen_whole : (programs : List Program) → allSeen .whole programs = programs
  | [] => rfl
  | first :: others => by rw [allSeen, seen_whole first, all_seen_whole others]

end

theorem seen_whole_eq : seen .whole = id := funext seen_whole

end Program

theorem Outcome.ext {before : ParseState} {α : Type} {first second : Outcome before α}
    (values : first.value = second.value) (states : first.state = second.state) :
    first = second := by
  cases first
  cases second
  cases values
  cases states
  rfl

namespace Step

variable {n n' : Nat} {α : Type}

theorem eq_of_alike {step : Step n α} {other : Step n' α} (alike : Alike Eq id step other)
    (s : ParseState) (bounded : s.unread.length < n) (bounded' : s.unread.length < n') :
    step s bounded = other s bounded' := by
  rcases alike s s bounded bounded' rfl with ⟨values, states⟩
  exact Outcome.ext values states

end Step

theorem Parallel.equal : Parallel .whole Eq where
  current := congrArg ParseState.current
  unread states := by rw [states]
  panicking := congrArg ParseState.panicking
  advance states _ := congrArg ParseState.advance states
  refuse problem states := by rw [states]
  warn := by
    intro s t token other problem states tokens
    have same : token = other := tokens
    rw [states, same]
  calm := congrArg ParseState.calm

/-- A property of states that no move of the parser ends. -/
structure Lasting (holds : ParseState → Prop) : Prop where
  advance : ∀ {s}, holds s → s.unread ≠ [] → holds s.advance
  refuse : ∀ {s} (problem : SyntacticProblem), holds s → holds (s.refuse problem)
  warn : ∀ {s} (token : Token) (problem : SyntacticProblem), holds s → holds (s.warn token problem)
  calm : ∀ {s}, holds s → holds s.calm

namespace Lasting

variable {holds : ParseState → Prop}

theorem parallel (lasting : Lasting holds) : Parallel .whole fun s t => s = t ∧ holds s where
  current states := Parallel.equal.current states.1
  unread states := Parallel.equal.unread states.1
  panicking states := Parallel.equal.panicking states.1
  advance states more := ⟨Parallel.equal.advance states.1 more, lasting.advance states.2 more⟩
  refuse problem states := ⟨Parallel.equal.refuse problem states.1, lasting.refuse problem states.2⟩
  warn problem states tokens :=
    ⟨Parallel.equal.warn problem states.1 tokens, lasting.warn _ problem states.2⟩
  calm states := ⟨Parallel.equal.calm states.1, lasting.calm states.2⟩

theorem program (lasting : Lasting holds) {n : Nat} {s : ParseState} (bounded : s.unread.length < n)
    (start : holds s) : holds ((Step.program n : Step n Program) s bounded).state :=
  (Step.alike_program lasting.parallel n n s s bounded bounded ⟨rfl, start⟩).2.2

end Lasting

end TinyPascal
