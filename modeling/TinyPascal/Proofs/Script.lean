import TinyPascal.Parser.Step

/-!
# What a stretch of reading does

A script lists what a parse does while it reads: the tokens it consumes and the
remarks it makes about them, in order. `ParseState.Follows` says that one state
is reached from another by a script. It fixes what a script leaves untouched, and
which lexical faults come to light on the way, because a token is pulled before
the one in front of it is consumed.
-/

namespace TinyPascal

set_option autoImplicit false

inductive Deed where
  | read (token : Token)
  | say (remark : Diagnostic)
deriving DecidableEq, Repr

namespace Deed

def token? : Deed → Option Token
  | read token => some token
  | say _ => none

def remark? : Deed → Option Diagnostic
  | read _ => none
  | say remark => some remark

end Deed

abbrev Script := List Deed

namespace Script

def tokens (script : Script) : List Token := script.filterMap Deed.token?

def remarks (script : Script) : Diagnostics := script.filterMap Deed.remark?

@[simp, grind =]
theorem tokens_nil : tokens [] = [] := rfl

@[simp, grind =]
theorem tokens_read (token : Token) (script : Script) :
    tokens (.read token :: script) = token :: tokens script := rfl

@[simp, grind =]
theorem tokens_say (remark : Diagnostic) (script : Script) :
    tokens (.say remark :: script) = tokens script := rfl

@[simp, grind =]
theorem tokens_append (first second : Script) :
    tokens (first ++ second) = tokens first ++ tokens second :=
  List.filterMap_append

@[simp]
theorem remarks_nil : remarks [] = [] := rfl

@[simp]
theorem remarks_read (token : Token) (script : Script) :
    remarks (.read token :: script) = remarks script := rfl

@[simp]
theorem remarks_say (remark : Diagnostic) (script : Script) :
    remarks (.say remark :: script) = remark :: remarks script := rfl

@[simp]
theorem remarks_append (first second : Script) :
    remarks (first ++ second) = remarks first ++ remarks second :=
  List.filterMap_append

def warning (token : Token) (problem : SyntacticProblem) : Deed :=
  .say (.about .warning token (.syntactic problem))

@[simp]
theorem tokens_warning (token : Token) (problem : SyntacticProblem) (script : Script) :
    tokens (warning token problem :: script) = tokens script := rfl

@[simp]
theorem remarks_warning (token : Token) (problem : SyntacticProblem) (script : Script) :
    remarks (warning token problem :: script) =
      .about .warning token (.syntactic problem) :: remarks script := rfl

end Script

namespace ParseEvent

/-- A remark of the parser itself, as opposed to a fault of the text below it. -/
def remark? : ParseEvent → Option Diagnostic
  | reported diagnostic => if diagnostic.phase = .syntactic then some diagnostic else none
  | _ => none

/-- Events that the lexer causes: nothing is consumed and no grammar is judged. -/
def IsLexical (event : ParseEvent) : Prop :=
  event.consumed? = none ∧ event.remark? = none

end ParseEvent

def Arrival.IsLexical (arrival : Arrival) : Prop :=
  ∀ event ∈ arrival.events, event.IsLexical

namespace ParseState

/-- Everything still to be looked at, the end-of-file mark included. -/
def tokens (s : ParseState) : List Token :=
  s.unread.map Arrival.token ++ [s.ending.token]

def consumed (s : ParseState) : List Token :=
  s.trace.reverse.filterMap ParseEvent.consumed?

def remarks (s : ParseState) : Diagnostics :=
  s.trace.reverse.filterMap ParseEvent.remark?

def diagnostics (s : ParseState) : Diagnostics :=
  s.trace.reverse.filterMap ParseEvent.diagnostic?

/-- What happens while `count` tokens of `unread` are consumed, apart from the
consuming itself. -/
def pulls (ending : Arrival) : Nat → List Arrival → List ParseEvent
  | 0, _ => []
  | _ + 1, [] => []
  | count + 1, _ :: rest => pullEvents ending rest ++ pulls ending count rest

theorem pulls_add (ending : Arrival) (first second : Nat) (unread : List Arrival) :
    pulls ending (first + second) unread =
      pulls ending first unread ++ pulls ending second (unread.drop first) := by
  induction first generalizing unread with
  | zero => simp [pulls]
  | succ first induction =>
      rw [Nat.succ_add]
      cases unread with
      | nil => cases second <;> simp [pulls]
      | cons arrival rest => simp [pulls, induction]

def faulty (events : List ParseEvent) : Bool :=
  events.any fun event => event.diagnostic?.isSome

@[simp]
theorem faulty_append (first second : List ParseEvent) :
    faulty (first ++ second) = (faulty first || faulty second) :=
  List.any_append

theorem faulty_eq_false_iff {events : List ParseEvent} :
    faulty events = false ↔ events.filterMap ParseEvent.diagnostic? = [] := by
  simp [faulty, List.filterMap_eq_nil_iff]

/-- Only lexical events are still to come. -/
structure Orderly (s : ParseState) : Prop where
  lexical : ∀ arrival ∈ s.unread, arrival.IsLexical
  lexicalEnd : s.ending.IsLexical

/-- A state in which reading can start: nothing is broken, and the end of the
text is marked as such. -/
structure Ready (s : ParseState) : Prop extends Orderly s where
  calm : s.panicking = false
  ended : s.ending.token.kind = .eof

/-- `after` is reached from `before` by doing what `script` lists. Unless a fault
comes to light on the way, nothing but the remarks of the script is reported. -/
structure Follows (before : ParseState) (script : Script) (after : ParseState) : Prop where
  tokens : before.tokens = script.tokens ++ after.tokens
  unread : after.unread = before.unread.drop script.tokens.length
  ending : after.ending = before.ending
  truncated : after.truncated = before.truncated
  panicking : after.panicking = before.panicking
  consumed : after.consumed = before.consumed ++ script.tokens
  remarks : after.remarks = before.remarks ++ script.remarks
  hadError : after.hadError = (before.hadError || script.remarks.any Diagnostic.isError ||
    faulty (pulls before.ending script.tokens.length before.unread))
  diagnostics : faulty (pulls before.ending script.tokens.length before.unread) = false →
    after.diagnostics = before.diagnostics ++ script.remarks

namespace Follows

variable {before middle after : ParseState} {script first second : Script}

theorem refl (s : ParseState) : s.Follows [] s := by
  constructor <;> simp [pulls, faulty]

theorem trans (start : before.Follows first middle) (finish : middle.Follows second after) :
    before.Follows (first ++ second) after where
  tokens := by rw [start.tokens, finish.tokens, Script.tokens_append, List.append_assoc]
  unread := by
    rw [finish.unread, start.unread, List.drop_drop, Script.tokens_append, List.length_append]
  ending := finish.ending.trans start.ending
  truncated := finish.truncated.trans start.truncated
  panicking := finish.panicking.trans start.panicking
  consumed := by rw [finish.consumed, start.consumed, Script.tokens_append, List.append_assoc]
  remarks := by rw [finish.remarks, start.remarks, Script.remarks_append, List.append_assoc]
  hadError := by
    rw [finish.hadError, start.hadError, start.ending, start.unread, Script.remarks_append,
      List.any_append, Script.tokens_append, List.length_append, pulls_add, faulty_append]
    simp only [Bool.or_assoc, Bool.or_left_comm]
  diagnostics := by
    rw [Script.tokens_append, List.length_append, pulls_add, faulty_append, Bool.or_eq_false_iff]
    rintro ⟨quietStart, quietFinish⟩
    rw [← start.unread, ← start.ending] at quietFinish
    rw [finish.diagnostics quietFinish, start.diagnostics quietStart, Script.remarks_append,
      List.append_assoc]

theorem orderly (follows : before.Follows script after) (orderly : before.Orderly) :
    after.Orderly where
  lexical := by
    intro arrival member
    rw [follows.unread] at member
    exact orderly.lexical arrival (List.mem_of_mem_drop member)
  lexicalEnd := by rw [follows.ending]; exact orderly.lexicalEnd

theorem ready (follows : before.Follows script after) (ready : before.Ready) : after.Ready where
  toOrderly := follows.orderly ready.toOrderly
  calm := follows.panicking.trans ready.calm
  ended := by rw [follows.ending]; exact ready.ended

theorem tokens_eq {rest : List Token} (follows : before.Follows script after)
    (offered : before.tokens = script.tokens ++ rest) : after.tokens = rest := by
  rw [follows.tokens] at offered
  exact List.append_cancel_left offered

end Follows

theorem filter_map_eq_nil_of_lexical {events : List ParseEvent}
    (lexical : ∀ event ∈ events, event.IsLexical) :
    events.filterMap ParseEvent.consumed? = [] ∧ events.filterMap ParseEvent.remark? = [] := by
  constructor
  · exact List.filterMap_eq_nil_iff.mpr fun event member => (lexical event member).1
  · exact List.filterMap_eq_nil_iff.mpr fun event member => (lexical event member).2

theorem lexical_pull_events {ending : Arrival} {unread : List Arrival}
    (lexical : ∀ arrival ∈ unread, arrival.IsLexical) (lexicalEnd : ending.IsLexical) :
    ∀ event ∈ pullEvents ending unread, event.IsLexical := by
  match unread with
  | [] => simp [pullEvents]
  | [_] => exact lexicalEnd
  | _ :: second :: _ => exact lexical second (by simp)

theorem follows_advance {s : ParseState} {arrival : Arrival} {rest : List Arrival}
    (orderly : s.Orderly) (unread : s.unread = arrival :: rest) :
    s.Follows [.read arrival.token] s.advance := by
  have restLexical : ∀ other ∈ rest, other.IsLexical := by
    intro other member
    exact orderly.lexical other (by rw [unread]; exact List.mem_cons_of_mem _ member)
  obtain ⟨noneConsumed, noneRemarked⟩ :=
    filter_map_eq_nil_of_lexical (lexical_pull_events restLexical orderly.lexicalEnd)
  constructor
  case diagnostics =>
    intro quiet
    simp only [pulls, unread, Script.tokens_read, Script.tokens_nil, List.length_cons,
      List.length_nil, List.append_nil, faulty_eq_false_iff] at quiet
    simp [ParseState.diagnostics, advance, observe, unread, quiet, ParseEvent.diagnostic?]
  all_goals simp [ParseState.tokens, ParseState.consumed, ParseState.remarks, advance, observe,
    unread, pulls, faulty, noneConsumed, noneRemarked, ParseEvent.consumed?, ParseEvent.remark?]

theorem follows_warn (s : ParseState) (token : Token) (problem : SyntacticProblem) :
    s.Follows [Script.warning token problem] (s.warn token problem) := by
  constructor
  all_goals simp [ParseState.tokens, ParseState.consumed, ParseState.remarks,
    ParseState.diagnostics, warn, pulls, faulty, ParseEvent.consumed?, ParseEvent.remark?,
    ParseEvent.diagnostic?, Diagnostic.about, Diagnostic.phase, Problem.phase, Diagnostic.isError]

theorem had_error_advance {s : ParseState} (failed : s.hadError = true) :
    s.advance.hadError = true := by
  unfold advance
  cases s.unread with
  | nil => exact failed
  | cons arrival rest => simp [observe, failed]

theorem had_error_skip_to {s : ParseState} (stops : Kind → Bool) (failed : s.hadError = true) :
    (s.skipTo stops).hadError = true := by
  unfold skipTo
  generalize s.unread.takeWhile _ = skipped
  induction skipped generalizing s with
  | nil => exact failed
  | cons arrival others induction => exact induction (had_error_advance failed)

end ParseState

end TinyPascal
