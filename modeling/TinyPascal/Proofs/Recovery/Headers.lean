import TinyPascal.Proofs.Grammar.Derived
import TinyPascal.Proofs.Recovery.Declarations
import TinyPascal.Proofs.Recovery.Sections

/-!
# Broken headers

Whatever stands in the place of a header, reading goes on at the next `var`, `procedure` or
`begin`. A procedure that lacks its name is read on behind the place of the name if `(` or `;`
stands there, so there a header is looked for that may lack it.
-/

namespace TinyPascal

set_option autoImplicit false

namespace Grammar

open Ebnf

def Ebnf.programHeader : Ebnf := word .programKw ++ (word .ident ++ word .semicolon)

/-- What stands in a header behind the name of the procedure. -/
def Ebnf.headerTail : Ebnf :=
  opt (word .lparen ++ opt (ref .params) ++ word .rparen) ++ word .semicolon

def Ebnf.procedureHeader : Ebnf := word .ident ++ headerTail

/-- The same, with or without the name. -/
def Ebnf.looseHeader : Ebnf := opt (word .ident) ++ headerTail

/-- No tokens in front of others have the form; only all of them may. -/
def Ebnf.OnlyWhole (form : Ebnf) (tokens : List Token) : Prop :=
  ∀ front back, tokens = front ++ back → Derives form (front.map Token.kind) → back = []

theorem derives_program_header {text : List Kind} :
    Derives programHeader text ↔ text = [.programKw, .ident, .semicolon] := by
  constructor
  · intro derived
    rcases derived.means fun _ _ => derived_of_means with
      ⟨_, _, rfl, ⟨_, isProgram, rfl⟩, _, _, rfl, ⟨_, isName, rfl⟩, _, closes, rfl⟩
    rw [List.mem_singleton.mp isProgram, List.mem_singleton.mp isName, List.mem_singleton.mp closes]
    rfl
  · rintro rfl
    exact .seq (.oneOf List.mem_cons_self)
      (.seq (.oneOf List.mem_cons_self) (.oneOf List.mem_cons_self))

theorem procedure_header_of_tail {text : List Kind} (tail : Derives headerTail text) :
    Derives procedureHeader (.ident :: text) :=
  .seq (.oneOf List.mem_cons_self) tail

theorem loose_header_of_tail {text : List Kind} (tail : Derives headerTail text) :
    Derives looseHeader text :=
  .seq .absent tail

theorem loose_header_of_procedure_header {text : List Kind} (named : Derives procedureHeader text) :
    Derives looseHeader text := by
  cases named with
  | seq name tail => exact .seq (.present name) tail

end Grammar

namespace Phrase

/-- What stands in a header behind `name`. -/
def HeaderTail (name : Token) : Phrase (Token × Option Variables) :=
  seq OptionalParams fun params => seq (after (· = .semicolon) fun _ => silent ()) fun _ =>
    silent (name, params)

theorem header_tail_derived {name : Token} {script : Script} {rest : List Token}
    {header : Token × Option Variables} (read : HeaderTail name script rest header) :
    Grammar.Derives Grammar.Ebnf.headerTail script.kinds := by
  rcases read with ⟨front, _, params, rfl, given, _, _, _, rfl,
    ⟨semicolon, _, rfl, closes, rfl, -⟩, rfl, -⟩
  rw [Script.kinds_append]
  refine .seq ?_ ?_
  · apply Grammar.derives_of_means
    rcases Grammar.optional_params_derived given with none | ⟨listed, same, inner⟩
    · exact .inl none
    · exact .inr ⟨.lparen :: listed, [.rparen], same, ⟨[.lparen], listed, rfl,
        Grammar.means_word.mpr rfl, inner⟩, Grammar.means_word.mpr rfl⟩
  · exact .oneOf (List.mem_singleton.mpr (of_decide_eq_true closes))

end Phrase

namespace Step

open Phrase ParseState

variable {n : Nat} {α β : Type} {stops : Kind → Bool} {boundary garbage : List Token}

theorem expect_or_cases {kind : Kind} (problem : SyntacticProblem) (standIn : Kind) {s : ParseState}
    (bounded : s.unread.length < n) {motive : Token → ParseState → Prop}
    (missed : motive (.standIn standIn s.current) (s.refuse problem))
    (found : ∀ (arrival : Arrival) (rest : List Arrival), s.unread = arrival :: rest →
      arrival.token.kind = kind → motive arrival.token s.advance) :
    motive ((expectOr kind problem standIn : Step n Token) s bounded).value
      ((expectOr kind problem standIn : Step n Token) s bounded).state :=
  expect_cases (motive := fun token => motive (token.getD (.standIn standIn s.current))) problem
    bounded missed found

theorem tries_current_bind {next : Token → Step n α} {phrase : Phrase α} {stopped : α → Prop}
    (tries : ∀ token, Tries stops boundary (next token) phrase stopped) :
    Tries stops boundary (current >>= next) phrase stopped := by
  intro s bounded inside
  exact tries s.current s bounded inside

theorem tries_expect_or {kind : Kind} (problem : SyntacticProblem) (standIn : Kind)
    (apart : stops kind = false) :
    Tries stops boundary (expectOr kind problem standIn : Step n Token) (one (· = kind)) anyhow := by
  apply tries_current_bind
  intro found
  apply (tries_map (Rule.tries_expect problem apart) fun token =>
    token.getD (.standIn standIn found)).weaken _ fun _ ended => ended
  rintro script rest _ ⟨_, ⟨token, rfl, read⟩, rfl⟩
  exact read

theorem tries_expect_only {kind : Kind} (problem : SyntacticProblem) (apart : stops kind = false) :
    Tries stops boundary (do
      let _ ← (Rule.expect kind problem).run
      return () : Step n Unit) (after (· = kind) fun _ => silent ()) anyhow := by
  apply (tries_map (Rule.tries_expect problem apart) fun _ => ()).weaken _ fun _ ended => ended
  rintro script rest _ ⟨_, ⟨token, rfl, rfl, faced⟩, rfl⟩
  exact ⟨token, [], rfl, faced, rfl, rfl⟩

theorem unless_panicking_of_calm (otherwise : α) (step : Step n α) {s : ParseState}
    (bounded : s.unread.length < n) (calm : s.panicking = false) :
    unlessPanicking otherwise step s bounded = step s bounded := by
  change (if s.panicking = true then pure otherwise else step : Step n α) s bounded = _
  rw [calm]
  rfl

theorem tries_unless_panicking {step : Step n α} {phrase : Phrase α} {stopped : α → Prop}
    (otherwise : α) (tries : Tries stops boundary step phrase stopped) :
    Tries stops boundary (unlessPanicking otherwise step) phrase stopped := by
  intro s bounded inside
  rw [unless_panicking_of_calm otherwise step bounded inside.calm]
  exact tries s bounded inside

/-- The step does nothing while there is a panic. -/
def Idle (step : Step n α) : Prop :=
  ∀ (s : ParseState) (bounded : s.unread.length < n), s.panicking = true →
    (step s bounded).state = s

theorem idle_pure (value : α) : Idle (pure value : Step n α) := fun _ _ _ => rfl

theorem idle_unless_panicking (otherwise : α) (step : Step n α) :
    Idle (unlessPanicking otherwise step) := by
  intro s bounded panics
  change ((if s.panicking = true then pure otherwise else step : Step n α) s bounded).state = s
  rw [panics]
  rfl

theorem Idle.bind {step : Step n α} {next : α → Step n β} (first : Idle step)
    (second : ∀ value, Idle (next value)) : Idle (step >>= next) := by
  intro s bounded panics
  have same := first s bounded panics
  have further := second (step s bounded).value (step s bounded).state
    (Nat.lt_of_le_of_lt (step s bounded).noMore bounded) (by rw [same]; exact panics)
  exact further.trans same

theorem Idle.recover_state {step : Step n α} (idle : Idle step) (stops : Kind → Bool)
    {s : ParseState} (bounded : s.unread.length < n) (panics : s.panicking = true) :
    ((do
      let value ← step
      recover stops
      return value : Step n α) s bounded).state = (recover stops s bounded).state := by
  have through : ∀ (t : ParseState) (below : t.unread.length < n), t = s →
      (recover stops t below).state = (recover stops s bounded).state := by
    rintro _ _ rfl
    rfl
  exact through _ _ (idle s bounded panics)

theorem tries_bind_idle {step : Step n α} {next : α → Step n β} {first : Phrase α}
    {second : α → Phrase β} {stopped : α → Prop} (head : Tries stops boundary step first stopped)
    (tail : ∀ value, Tries stops boundary (next value) (second value) anyhow)
    (idle : ∀ value, Idle (next value)) :
    Tries stops boundary (step >>= next) (seq first second) anyhow := by
  apply tries_bind head tail
  intro value _ s bounded panics
  exact ⟨trivial, idle value s bounded panics⟩

def programNames : Step n (Token × Token) := do
  let keyword ← expectOr .programKw .programKeyword .programKw
  let found ← current
  let name ← unlessPanicking (.missing found) (expectOr .ident .programName .unknown)
  unlessPanicking () do
    let _ ← (Rule.expect .semicolon .programHeaderEnd).run
  return (keyword, name)

theorem tries_program_names :
    Tries Kind.endsHeader boundary (programNames : Step n (Token × Token))
      (seq (one (· = .programKw)) fun keyword => seq (one (· = .ident)) fun name =>
        seq (after (· = .semicolon) fun _ => silent ()) fun _ => silent (keyword, name)) anyhow := by
  unfold programNames
  apply tries_bind_idle (tries_expect_or _ _ rfl)
  · intro keyword
    apply tries_current_bind
    intro found
    apply tries_bind_idle (tries_unless_panicking _ (tries_expect_or _ _ rfl))
    · intro name
      apply tries_bind_idle (tries_unless_panicking () (tries_expect_only _ rfl))
      · intro _
        exact tries_pure _
      · intro _
        exact idle_pure _
    · intro name
      exact (idle_unless_panicking _ _).bind fun _ => idle_pure _
  · intro keyword
    have idle : Idle (current : Step n Token) := fun _ _ _ => rfl
    exact idle.bind fun found => (idle_unless_panicking _ _).bind fun name =>
      (idle_unless_panicking _ _).bind fun _ => idle_pure _

theorem reads_program_header_of_header {rest : List Token}
    (header : Grammar.Derives Grammar.Ebnf.programHeader (garbage.map Token.kind)) :
    (programHeader : Step n (Token × Token)).Reads garbage rest fun errors _ => errors = [] := by
  have kinds := Grammar.derives_program_header.mp header
  simp only [List.map_eq_cons_iff, List.map_eq_nil_iff] at kinds
  rcases kinds with ⟨keyword, _, rfl, isProgram, name, _, rfl, isName, semicolon, _, rfl, closes, rfl⟩
  exact (reads_program_header isProgram isName closes).weaken fun _ _ said => said.1

/-- Anything else is passed over with one error. -/
theorem reads_program_header_of_garbage
    (closed : faces Kind.endsHeader boundary = true)
    (free : ∀ token ∈ garbage, token.kind.endsHeader = false)
    (only : Grammar.Ebnf.programHeader.OnlyWhole garbage)
    (broken : ¬ Grammar.Derives Grammar.Ebnf.programHeader (garbage.map Token.kind)) :
    (programHeader : Step n (Token × Token)).Reads garbage boundary fun errors _ =>
      errors.length = 1 := by
  have complete : ∀ (script : Script) (rest : List Token) (names : Token × Token),
      seq (one (· = .programKw)) (fun keyword => seq (one (· = .ident)) fun name =>
        seq (after (· = .semicolon) fun _ => silent ()) fun _ => silent (keyword, name)) script rest
        names → Grammar.Derives Grammar.Ebnf.programHeader script.kinds := by
    rintro _ _ _ ⟨_, _, keyword, rfl, ⟨rfl, isProgram⟩, _, _, name, rfl, ⟨rfl, isName⟩, _, _, _, rfl,
      ⟨semicolon, _, rfl, closes, rfl, -⟩, rfl, -⟩
    apply Grammar.derives_program_header.mpr
    simp [of_decide_eq_true isProgram, of_decide_eq_true isName, of_decide_eq_true closes]
  apply (tries_program_names.reads_recover rfl closed free _).weaken
  · rintro errors names (⟨-, script, rfl, read⟩ | ⟨one, -⟩)
    · exact absurd (complete _ _ _ read) broken
    · exact one
  · intro script left names same read
    exact only _ _ same (complete _ _ _ read)

theorem reads_program_header_counted (closed : faces Kind.endsHeader boundary = true)
    (free : ∀ token ∈ garbage, token.kind.endsHeader = false)
    (only : Grammar.Ebnf.programHeader.OnlyWhole garbage) :
    (programHeader : Step n (Token × Token)).Reads garbage boundary fun errors _ =>
      (Grammar.Derives Grammar.Ebnf.programHeader (garbage.map Token.kind) → errors.length = 0) ∧
      (¬ Grammar.Derives Grammar.Ebnf.programHeader (garbage.map Token.kind) →
        errors.length = 1) := by
  by_cases complete : Grammar.Derives Grammar.Ebnf.programHeader (garbage.map Token.kind)
  · apply (reads_program_header_of_header complete).weaken
    intro errors _ none
    exact ⟨fun _ => List.length_eq_zero_iff.mpr none, fun broken => absurd complete broken⟩
  · apply (reads_program_header_of_garbage closed free only complete).weaken
    intro errors _ one
    exact ⟨fun header => absurd header complete, fun _ => one⟩

def procedureTail (name : Token) : Step n (Token × Option Variables) := do
  let params ← unlessPanicking none do
    match ← take (· = .lparen) with
    | some opening => params opening
    | none => return none
  unlessPanicking () do
    let _ ← (Rule.expect .semicolon .procedureHeaderEnd).run
  return (name, params)

theorem tries_procedure_tail (name : Token) :
    Tries Kind.endsHeader boundary (procedureTail name : Step n (Token × Option Variables))
      (HeaderTail name) anyhow := by
  have given : Tries Kind.endsHeader boundary (do
      match ← take (· = .lparen) with
      | some opening => params opening
      | none => return none : Step n (Option Variables)) OptionalParams anyhow :=
    tries_take_bind (apart_ends_header.only rfl)
      (fun opening => tries_params apart_ends_header opening) (tries_pure none)
  unfold procedureTail
  apply tries_bind_idle (tries_unless_panicking none given)
  · intro params
    apply tries_bind_idle (tries_unless_panicking () (tries_expect_only _ rfl))
    · intro _
      exact tries_pure _
    · intro _
      exact idle_pure _
  · intro params
    exact (idle_unless_panicking _ _).bind fun _ => idle_pure _

theorem idle_procedure_tail (name : Token) :
    Idle (procedureTail name : Step n (Token × Option Variables)) :=
  (idle_unless_panicking _ _).bind fun _ => (idle_unless_panicking _ _).bind fun _ => idle_pure _

/-- What is read of a header behind its name, up to where the header ends even if it is broken. -/
def recoveredTail (name : Token) : Step n (Token × Option Variables) := do
  let header ← procedureTail name
  recover Kind.endsHeader
  return header

/-- What is read of a header behind `name`, which may be a stand-in: then a panic may be over. -/
def headerBehind (name : Token) : Step n (Token × Option Variables) := do
  if ← sees (fun kind => kind = .lparen || kind = .semicolon) then
    calm
  recoveredTail name

theorem reads_recovered_tail (name : Token) (closed : faces Kind.endsHeader boundary = true)
    (free : ∀ token ∈ garbage, token.kind.endsHeader = false)
    (only : Grammar.Ebnf.headerTail.OnlyWhole garbage) :
    (recoveredTail name : Step n (Token × Option Variables)).Reads garbage boundary fun errors _ =>
      errors = [] → Grammar.Derives Grammar.Ebnf.headerTail (garbage.map Token.kind) := by
  apply ((tries_procedure_tail name).reads_recover rfl closed free _).weaken
  · rintro errors header (⟨-, script, rfl, read⟩ | ⟨one, -⟩) none
    · exact header_tail_derived read
    · rw [none] at one
      cases one
  · intro script left header same read
    exact only _ _ same (header_tail_derived read)

theorem reads_calm_if {step : Step n α} {rest : List Token} {outcome : Diagnostics → α → Prop}
    (kinds : Kind → Bool) (reads : step.Reads garbage rest outcome) :
    (do
      if ← sees kinds then
        calm
      step).Reads garbage rest outcome := by
  have calmed : (calm >>= fun _ => step).Reads garbage rest outcome := by
    intro s bounded ready tokens
    have start : s.Follows [] s.calm := by
      rw [ready.calm_eq]
      exact .refl s
    rcases reads s.calm bounded (start.ready ready) tokens with ⟨script, same, follows, said⟩
    exact ⟨script, same, start.trans follows, said⟩
  have either : ∀ seen : Bool, (if seen = true then calm >>= fun _ => step else step).Reads garbage
      rest outcome := by
    intro seen
    cases seen with
    | false => exact reads
    | true => exact calmed
  intro s bounded
  exact either _ s bounded

theorem reads_header_without_name {s : ParseState} (inside : s.Inside Kind.endsHeader boundary)
    (tokens : s.tokens = garbage ++ boundary)
    (free : ∀ token ∈ garbage, token.kind.endsHeader = false)
    (only : Grammar.Ebnf.looseHeader.OnlyWhole garbage)
    (below : (s.refuse .procedureName).unread.length < n) :
    ∃ script : Script, script.tokens = garbage ∧ script.errors ≠ [] ∧
      s.Follows script ((headerBehind (.standIn .unknown s.current) :
        Step n (Token × Option Variables)) (s.refuse .procedureName) below).state := by
  let name := Token.standIn .unknown s.current
  change ∃ script : Script, script.tokens = garbage ∧ _ ∧ s.Follows script ((if
      (decide (s.current.kind = .lparen) || decide (s.current.kind = .semicolon)) = true
    then calm >>= fun _ => recoveredTail name else recoveredTail name)
      (s.refuse .procedureName) below).state
  cases (decide (s.current.kind = .lparen) || decide (s.current.kind = .semicolon)) with
  | true =>
      have heard := follows_refuse inside.calm inside.unread_ne_nil .procedureName
      have wholeTail : Grammar.Ebnf.headerTail.OnlyWhole garbage := by
        intro front back split derived
        exact only front back split (Grammar.loose_header_of_tail derived)
      rcases reads_recovered_tail name inside.closed free wholeTail (s.refuse .procedureName).calm
        below (heard.ready inside.toReady) tokens with ⟨script, same, follows, -⟩
      refine ⟨[.say _] ++ script, same, ?_, heard.trans follows⟩
      exact List.cons_ne_nil _ _
  | false =>
      rcases recover_of_refuse inside tokens .procedureName below with ⟨script, same, one, follows⟩
      refine ⟨script, same, ?_, ?_⟩
      · intro none
        rw [none] at one
        cases one
      · rw [← (idle_procedure_tail name).recover_state Kind.endsHeader below rfl] at follows
        exact follows

theorem reads_header_behind_name {name : Token} {others : List Token} (isName : name.kind = .ident)
    (closed : faces Kind.endsHeader boundary = true)
    (free : ∀ token ∈ name :: others, token.kind.endsHeader = false)
    (only : Grammar.Ebnf.looseHeader.OnlyWhole (name :: others)) :
    (headerBehind name : Step n (Token × Option Variables)).Reads others boundary fun errors _ =>
      errors = [] →
        Grammar.Derives Grammar.Ebnf.procedureHeader ((name :: others).map Token.kind) := by
  have wholeTail : Grammar.Ebnf.headerTail.OnlyWhole others := by
    intro front back split derived
    apply only (name :: front) back (by rw [split]; rfl)
    rw [List.map_cons, isName]
    exact Grammar.loose_header_of_procedure_header (Grammar.procedure_header_of_tail derived)
  have tail := reads_recovered_tail (n := n) name closed
    (fun token member => free token (List.mem_cons_of_mem _ member)) wholeTail
  apply (reads_calm_if (fun kind => kind = .lparen || kind = .semicolon) tail).weaken
  intro errors _ said none
  rw [List.map_cons, isName]
  exact Grammar.procedure_header_of_tail (said none)

/-- Whatever stands in the place of a header is passed over. If no error is reported, then it is
a header. -/
theorem reads_procedure_header (closed : faces Kind.endsHeader boundary = true)
    (free : ∀ token ∈ garbage, token.kind.endsHeader = false)
    (only : Grammar.Ebnf.looseHeader.OnlyWhole garbage) :
    (procedureHeader : Step n (Token × Option Variables)).Reads garbage boundary fun errors _ =>
      errors = [] → Grammar.Derives Grammar.Ebnf.procedureHeader (garbage.map Token.kind) := by
  intro s bounded ready tokens
  refine expect_or_cases (motive := fun name t => ∀ below : t.unread.length < n,
    ∃ script : Script, script.tokens = garbage ∧
      s.Follows script ((headerBehind name : Step n (Token × Option Variables)) t below).state ∧
      (script.errors = [] → Grammar.Derives Grammar.Ebnf.procedureHeader (garbage.map Token.kind)))
    .procedureName .unknown bounded ?missed ?found
    (Nat.lt_of_le_of_lt ((expectOr .ident .procedureName .unknown : Step n Token) s bounded).noMore
      bounded)
  case missed =>
    intro below
    have inside : s.Inside Kind.endsHeader boundary := ⟨ready, rfl, closed, garbage, tokens, free⟩
    rcases reads_header_without_name inside tokens free only below with
      ⟨script, same, wrong, follows⟩
    exact ⟨script, same, follows, fun none => absurd none wrong⟩
  case found =>
    intro arrival rest unread isName below
    have follows := follows_advance ready.toOrderly unread
    cases garbage with
    | nil =>
        have stops := (s.faces_tokens Kind.endsHeader).symm.trans ((congrArg _ tokens).trans closed)
        rw [s.current_of_unread unread, isName] at stops
        cases stops
    | cons first others =>
        have same := tokens
        rw [follows.tokens] at same
        rcases List.cons.inj same with ⟨rfl, behind⟩
        rcases reads_header_behind_name isName closed free only s.advance below
          (follows.ready ready) behind with ⟨script, rfl, follows', said⟩
        exact ⟨.read arrival.token :: script, rfl, follows.trans follows', said⟩

end Step

end TinyPascal
