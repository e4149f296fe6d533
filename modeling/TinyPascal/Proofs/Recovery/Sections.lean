import TinyPascal.Proofs.Phrase.Follow
import TinyPascal.Proofs.Recovery.CutProgram
import TinyPascal.Proofs.Recovery.Reads

/-!
# Reading a program part by part

What is read of a program or a procedure as it stands in the text, if one of its parts may be
something else than it should be.
-/

namespace TinyPascal

set_option autoImplicit false

namespace Phrase

theorem faces_mono {kinds others : Kind → Bool} {tokens : List Token}
    (implies : ∀ kind, kinds kind = true → others kind = true) (faced : faces kinds tokens = true) :
    faces others tokens = true := by
  cases tokens with
  | nil => cases faced
  | cons first behind => exact implies _ faced

theorem body_of_starts {commands : Phrase (List Command)} {closing : Phrase Unit} {script : Script}
    {rest : List Token} {read : Token × List Command}
    (done : BodyOf commands closing script rest read) :
    faces (· = .beginKw) (script.tokens ++ rest) = true := by
  cases done with
  | intro opens => exact decide_eq_true opens

/-- Behind a header something stands at which a broken one would end. -/
theorem sections_start {broken : Breakage} {n : Nat} {vars inner : Script} {ending : List Token}
    {locals : Option Variables} {procedures : List Program}
    (declared : VarSection vars (inner.tokens ++ ending) locals)
    (defined : Procedures broken n inner ending procedures)
    (begun : faces (· = .beginKw) ending = true) :
    faces Kind.endsHeader (vars.tokens ++ (inner.tokens ++ ending)) = true := by
  cases declared with
  | none =>
      apply faces_mono _ (procedures_starts defined begun)
      intro kind
      cases kind <;> decide
  | some isVar =>
      rw [Script.tokens_read, List.cons_append, faces_cons, isVar]
      rfl

end Phrase

namespace Step

open Phrase ParseState

variable {n m : Nat} {α β : Type} {rest other : List Token} {script : Script}

theorem Reads.recover_map {step : Step n α} {text : List Token} {outcome : Diagnostics → α → Prop}
    {other : Diagnostics → β → Prop} (stops : Kind → Bool) (f : α → β)
    (reads : step.Reads text rest outcome)
    (implies : ∀ errors value, outcome errors value → other errors (f value)) :
    (do
      let value ← step
      recover stops
      return f value : Step n β).Reads text rest other := by
  intro s bounded ready tokens
  rcases reads s bounded ready tokens with ⟨script, same, follows, said⟩
  have quiet := recover_state stops (Nat.lt_of_le_of_lt (step s bounded).noMore bounded)
    (follows.ready ready).calm
  refine ⟨script, same, ?_, implies _ _ said⟩
  rw [← quiet] at follows
  exact follows

theorem reads_program_header {keyword name semicolon : Token} (isProgram : keyword.kind = .programKw)
    (isName : name.kind = .ident) (closes : semicolon.kind = .semicolon) :
    (programHeader : Step n (Token × Token)).Reads [keyword, name, semicolon] rest
      (just (keyword, name)) := by
  intro s bounded ready tokens
  rcases program_header_realizes.complete s bounded [.read keyword, .read name, .read semicolon] rest
    (keyword, name) ready tokens ⟨keyword, _, rfl, decide_eq_true isProgram, name, _, rfl,
      decide_eq_true isName, semicolon, [], rfl, decide_eq_true closes, rfl, rfl⟩ with
    ⟨value, follows⟩
  exact ⟨_, rfl, follows, rfl, value⟩

/-- Procedures in a row, inside each of which fewer than `m` tokens are unread. -/
def procedureItems (m k : Nat) (fits : k ≤ m + 1) : Step k (Row Program) :=
  row (· = .procedureKw) (fun keyword => Rule.ofStep (procedure (procedures m) keyword)) k fits

/-- A row of procedures that was read to its end. -/
def ProcedureRow (size : Nat) : Phrase (Row Program) := fun script rest row =>
  row.complete = true ∧ Series (· = .procedureKw)
    (ProcedureOf (Procedures unbroken size) (Body unbroken size)) script rest row.items

section Unchanged

variable (same : SameHead rest other) (more : other ≠ [])

include same more

theorem reads_var_section {locals : Option Variables} (read : VarSection script rest locals) :
    (varSection : Step n (Option Variables)).Reads script.tokens other (just locals) :=
  var_section_realizes.reads mild_var_section (moves_var_section n) read more same

theorem reads_named_header {header : Token × Option Variables}
    (read : ProcedureHeader script rest header) :
    (procedureHeader : Step n (Token × Option Variables)).Reads script.tokens other (just header) :=
  procedure_header_realizes.reads mild_procedure_header (moves_procedure_header n) read more same

theorem reads_procedure_body {read : Token × List Command}
    (done : BodyOf (Body unbroken m) ProcedureEnd script rest read) :
    (body procedureEnd : Step n (Token × List Command)).Reads script.tokens other (just read) :=
  (body_realizes tolerated_unbroken procedure_end_realizes).reads (mild_body_of mild_procedure_end)
    (moves_body_of (moves_procedure_end n) m) done more same

theorem reads_program_body {read : Token × List Command}
    (done : BodyOf (Body unbroken m) (after (· = .dot) fun _ => silent ()) script rest read) :
    (body (do
      let _ ← (Rule.expect .dot .programEnd).run) : Step n (Token × List Command)).Reads
      script.tokens other (just read) :=
  (body_realizes tolerated_unbroken (expect_only_realizes .dot _ (by decide))).reads
    (mild_body_of mild_point) (moves_body_of (moves_program_end n) m) done more same

theorem reads_procedures {values : List Program} (read : Procedures unbroken m script rest values) :
    (procedures n).Reads script.tokens other (just values) :=
  (procedures_realizes tolerated_unbroken n).reads (mild_procedures n) (moves_procedures m n) read
    more same

theorem reads_whole_procedure {keyword : Token} {value : Program}
    (read : ProcedureOf (Procedures unbroken m) (Body unbroken m) keyword script rest value) :
    (procedure (procedures n) keyword).Reads script.tokens other (just value) :=
  (procedure_realizes tolerated_unbroken (procedures_realizes tolerated_unbroken n) keyword).reads
    (mild_procedure (mild_procedures n) keyword) (moves_procedure (moves_procedures m n) m keyword)
    read more same

theorem reads_procedure_items {values : List Program}
    (series : Series (· = .procedureKw) (ProcedureOf (Procedures unbroken m) (Body unbroken m))
      script rest values) {k : Nat} (fits : k ≤ n + 1) :
    (procedureItems n k fits).Reads script.tokens other (just ⟨values, true⟩) := by
  have each : ∀ keyword, Rule.Realizes (Rule.ofStep (procedure (procedures n) keyword))
      (ProcedureOf (Procedures unbroken n) (Body unbroken n) keyword) := fun keyword =>
    .of_step (procedure_realizes tolerated_unbroken (procedures_realizes tolerated_unbroken n) keyword)
  have mild : (ProcedureRow n).Mild := fun script rest row read =>
    mild_series (mild_procedure (mild_procedures n)) _ _ _ read.2
  have moves : Moves (ProcedureRow m) (ProcedureRow n) k := by
    rintro script rest other row ⟨complete, series⟩ short same
    exact ⟨complete, moves_series (moves_procedure (moves_procedures m n) m) _ _ _ _ series
      (Nat.lt_of_lt_of_le short fits) same⟩
  have read : ProcedureRow m script rest ⟨values, true⟩ := ⟨rfl, series⟩
  exact (row_realizes rfl each k fits).reads mild moves read more same

end Unchanged

variable {header vars inner ending : List Token} {opening : Token} {list : List Command}
  {locals : Option Variables}

theorem reads_procedure {nested : Step n (List Program)} {keyword : Token}
    {named : Diagnostics → Token × Option Variables → Prop} {defined : Diagnostics → List Program → Prop}
    (head : (procedureHeader : Step n (Token × Option Variables)).Reads header
      (vars ++ (inner ++ ending) ++ rest) named)
    (declare : (varSection : Step n (Option Variables)).Reads vars (inner ++ ending ++ rest)
      (just locals))
    (define : nested.Reads inner (ending ++ rest) defined)
    (finish : (body procedureEnd : Step n (Token × List Command)).Reads ending rest
      (just (opening, list))) :
    (procedure nested keyword).Reads (header ++ (vars ++ (inner ++ ending))) rest
      fun errors value => ∃ early late name params procedures, errors = early ++ late ∧
        named early (name, params) ∧ defined late procedures ∧
        value = ⟨keyword, name, params, locals, procedures, opening, list⟩ := by
  apply head.bind
  rintro early ⟨name, params⟩ said
  apply declare.bind
  rintro _ locals ⟨rfl, rfl⟩
  apply define.bind
  intro late procedures said'
  apply finish.recover_map Kind.endsVariables fun read =>
    Program.mk keyword name params locals procedures read.1 read.2
  rintro _ _ ⟨rfl, rfl⟩
  exact ⟨early, late, name, params, procedures, by simp, said, said', rfl⟩

theorem reads_program {named : Diagnostics → Token × Token → Prop}
    {declared : Diagnostics → Option Variables → Prop} {defined : Diagnostics → List Program → Prop}
    (head : (programHeader : Step n (Token × Token)).Reads header (vars ++ (inner ++ ending) ++ rest)
      named)
    (declare : (varSection : Step n (Option Variables)).Reads vars (inner ++ ending ++ rest) declared)
    (define : (procedures n).Reads inner (ending ++ rest) defined)
    (finish : (body (do
      let _ ← (Rule.expect .dot .programEnd).run) : Step n (Token × List Command)).Reads ending rest
      (just (opening, list))) :
    (program n : Step n Program).Reads (header ++ (vars ++ (inner ++ ending))) rest
      fun errors value => ∃ early middle late keyword name locals procedures,
        errors = early ++ (middle ++ late) ∧ named early (keyword, name) ∧ declared middle locals ∧
        defined late procedures ∧ value = ⟨keyword, name, none, locals, procedures, opening, list⟩ := by
  apply head.bind
  rintro early ⟨keyword, name⟩ said
  apply declare.bind
  intro middle locals said'
  apply define.bind
  intro late procedures said''
  apply finish.map fun read => Program.mk keyword name none locals procedures read.1 read.2
  rintro _ _ ⟨rfl, rfl⟩
  exact ⟨early, middle, late, keyword, name, locals, procedures, by simp, said, said', said'', rfl⟩

end Step

end TinyPascal
