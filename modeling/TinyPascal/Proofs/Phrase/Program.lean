import TinyPascal.Parser.Program
import TinyPascal.Proofs.Phrase.Command
import TinyPascal.Proofs.Phrase.Declaration

/-!
# Phrases of programs and procedures
-/

namespace TinyPascal

set_option autoImplicit false

namespace Phrase

def OptionalParams : Phrase (Option Variables) :=
  choice (· = .lparen) Params (silent none)

inductive ProcedureHeader : Phrase (Token × Option Variables)
  | intro {name semicolon : Token} {script : Script} {rest : List Token}
      {params : Option Variables} (isName : name.kind = .ident)
      (given : OptionalParams script (semicolon :: rest) params)
      (closes : semicolon.kind = .semicolon) :
      ProcedureHeader (.read name :: (script ++ [.read semicolon])) rest (name, params)

inductive ProcedureEnd : Phrase Unit
  | closed {semicolon : Token} {rest : List Token} (closes : semicolon.kind = .semicolon) :
      ProcedureEnd [.read semicolon] rest ()
  | unclosed {next : Token} {rest : List Token} (other : next.kind ≠ .semicolon) :
      ProcedureEnd [Script.warning next .procedureEnd] (next :: rest) ()

inductive BodyOf (commands : Phrase (List Command)) (closing : Phrase Unit) :
    Phrase (Token × List Command)
  | intro {opening endWord : Token} {front back : Script} {rest : List Token}
      {list : List Command} (opens : opening.kind = .beginKw)
      (inner : commands front (endWord :: (back.tokens ++ rest)) list)
      (ends : endWord.kind = .endKw) (closes : closing back rest ()) :
      BodyOf commands closing (.read opening :: (front ++ .read endWord :: back)) rest
        (opening, list)

inductive ProcedureOf (nested : Phrase (List Program)) (commands : Phrase (List Command))
    (keyword : Token) : Phrase Program
  | intro {header vars inner body : Script} {rest : List Token} {name opening : Token}
      {params locals : Option Variables} {procedures : List Program} {list : List Command}
      (head : ProcedureHeader header
        (vars.tokens ++ (inner.tokens ++ (body.tokens ++ rest))) (name, params))
      (declared : VarSection vars (inner.tokens ++ (body.tokens ++ rest)) locals)
      (defined : nested inner (body.tokens ++ rest) procedures)
      (done : BodyOf commands ProcedureEnd body rest (opening, list)) :
      ProcedureOf nested commands keyword (header ++ (vars ++ (inner ++ body))) rest
        ⟨keyword, name, params, locals, procedures, opening, list⟩

/-- Procedures in a row, nested less than `n` deep. -/
def Procedures (broken : Breakage) : Nat → Phrase (List Program)
  | 0 => nothing
  | n + 1 => Series (· = .procedureKw) (ProcedureOf (Procedures broken n) (Body broken n))

inductive WholeProgram (broken : Breakage) (n : Nat) : Phrase Program
  | intro {keyword name semicolon opening : Token} {vars inner body : Script} {rest : List Token}
      {locals : Option Variables} {procedures : List Program} {list : List Command}
      (isProgram : keyword.kind = .programKw) (isName : name.kind = .ident)
      (closes : semicolon.kind = .semicolon)
      (declared : VarSection vars (inner.tokens ++ (body.tokens ++ rest)) locals)
      (defined : Procedures broken n inner (body.tokens ++ rest) procedures)
      (done : BodyOf (Body broken n) (after (· = .dot) fun _ => silent ()) body rest (opening, list)) :
      WholeProgram broken n
        (.read keyword :: .read name :: .read semicolon :: (vars ++ (inner ++ body))) rest
        ⟨keyword, name, none, locals, procedures, opening, list⟩

end Phrase

namespace Step

open Phrase

variable {n : Nat} {α : Type}

theorem unless_panicking_realizes {step : Step n α} {phrase : Phrase α} (otherwise : α)
    (realizes : step.Realizes phrase) : (unlessPanicking otherwise step).Realizes phrase := by
  have either : ∀ broken : Bool,
      (if broken = true then Pure.pure otherwise else step : Step n α).Realizes
        (if broken = true then silent otherwise else phrase) := by
    intro broken
    exact .ite broken (.pure otherwise) realizes
  unfold unlessPanicking
  apply Step.Realizes.congr (.bind panicking_realizes either)
  intro script rest value
  constructor
  · rintro ⟨_, back, _, rfl, ⟨rfl, rfl⟩, read⟩
    exact read
  · intro read
    exact ⟨[], script, false, rfl, ⟨rfl, rfl⟩, read⟩

/-- Looking at the current token changes nothing, if what follows does not depend
on it. -/
theorem current_bind_realizes {next : Token → Step n α} {phrase : Phrase α}
    (realizes : ∀ token, (next token).Realizes phrase) : (current >>= next).Realizes phrase where
  lasting := by
    intro s bounded failed
    exact (realizes s.current).lasting s bounded failed
  sound := by
    intro s bounded ready clean
    exact (realizes s.current).sound s bounded ready clean
  complete := by
    intro s bounded script rest value ready offered read
    exact (realizes s.current).complete s bounded script rest value ready offered read

theorem expect_or_realizes {kind : Kind} (problem : SyntacticProblem) (standIn : Kind)
    (real : kind ≠ .eof) :
    (expectOr kind problem standIn : Step n Token).Realizes (one (· = kind)) := by
  unfold expectOr
  apply current_bind_realizes
  intro found
  refine Step.Realizes.congr
    (Rule.expect_run_bind_realizes real (fun token => .pure token) (.pure _)) ?_
  intro script rest value
  constructor
  · rintro ⟨token, _, rfl, faced, rfl, rfl⟩
    exact ⟨rfl, faced⟩
  · rintro ⟨rfl, faced⟩
    exact ⟨value, [], rfl, faced, rfl, rfl⟩

theorem body_realizes {broken : Breakage} (tolerated : Tolerated broken) {closing : Step n Unit}
    {phrase : Phrase Unit} (realizes : closing.Realizes phrase) :
    (body closing).Realizes (BodyOf (Body broken n) phrase) := by
  have ended : ∀ (opening : Token) (list : List Command),
      (do
        if (← (Rule.expect .endKw .bodyEnd).run).isSome then
          closing
        return (opening, list) : Step n (Token × List Command)).Realizes
      (after (· = .endKw) fun _ => seq phrase fun _ => silent (opening, list)) := by
    intro opening list
    exact Rule.expect_run_bind_realizes (by decide) (fun _ => .bind realizes fun _ => .pure _)
      (.pure _)
  unfold body
  apply current_bind_realizes
  intro found
  refine Step.Realizes.congr (Rule.expect_run_bind_realizes (by decide) (fun opening =>
    .bind (commands_realizes tolerated n) (ended opening)) (.pure _)) ?_
  rintro script rest ⟨first, value⟩
  constructor
  · rintro ⟨opening, _, rfl, opens, front, _, list, rfl, inner, endWord, _, rfl, ends, back, _, _,
      rfl, closes, rfl, same⟩
    cases same
    rw [List.append_nil] at inner ⊢
    exact .intro (of_decide_eq_true opens) inner (of_decide_eq_true ends) closes
  · rintro ⟨opens, inner, ends, closes⟩
    exact ⟨_, _, rfl, decide_eq_true opens, _, _, _, rfl, inner, _, _, rfl, decide_eq_true ends,
      _, [], (), (List.append_nil _).symm, closes, rfl, rfl⟩

theorem procedure_end_realizes : (procedureEnd : Step n Unit).Realizes ProcedureEnd := by
  unfold procedureEnd
  refine Step.Realizes.congr (take_bind_realizes rfl (fun _ => .pure ())
    (.bind current_realizes fun next => warn_realizes next .procedureEnd)) ?_
  intro script rest value
  constructor
  · rintro (⟨semicolon, _, rfl, closes, rfl, rfl⟩ |
      ⟨other, _, _, next, rfl, ⟨rfl, head⟩, rfl⟩)
    · exact .closed (of_decide_eq_true closes)
    · cases rest with
      | nil => cases head
      | cons token rest =>
          cases head
          exact .unclosed (by simpa using other)
  · intro read
    cases read with
    | closed closes => exact .inl ⟨_, [], rfl, decide_eq_true closes, rfl, rfl⟩
    | unclosed other => exact .inr ⟨by simpa using other, [], _, _, rfl, ⟨rfl, rfl⟩, rfl⟩

theorem expect_only_realizes (kind : Kind) (problem : SyntacticProblem) (real : kind ≠ .eof) :
    (do
      let _ ← (Rule.expect kind problem).run
      return () : Step n Unit).Realizes (after (· = kind) fun _ => silent ()) :=
  Rule.expect_run_bind_realizes real (fun _ => .pure ()) (.pure ())

theorem procedure_header_realizes :
    (procedureHeader : Step n (Token × Option Variables)).Realizes ProcedureHeader := by
  have tail : ∀ {given : Step n (Option Variables)}, given.Realizes OptionalParams →
      ∀ name : Token, (do
      let params ← unlessPanicking none given
      unlessPanicking () do
        let _ ← (Rule.expect .semicolon .procedureHeaderEnd).run
      recover Kind.endsHeader
      return (name, params) : Step n (Token × Option Variables)).Realizes
      (seq OptionalParams fun params => seq (after (· = .semicolon) fun _ => silent ()) fun _ =>
        silent (name, params)) := by
    intro given realizes name
    exact .bind (unless_panicking_realizes none realizes)
      fun params => .bind (unless_panicking_realizes () (expect_only_realizes .semicolon _ (by decide)))
        fun _ => silent_bind_realizes (recover_realizes _) (.pure (name, params))
  unfold procedureHeader
  refine Step.Realizes.congr (.bind (expect_or_realizes _ _ (by decide)) fun name =>
    sees_bind_realizes
      (silent_bind_realizes calm_realizes
        (tail (take_bind_realizes rfl params_realizes (.pure none)) name))
      (tail (take_bind_realizes rfl params_realizes (.pure none)) name)) ?_
  rintro script rest ⟨first, value⟩
  constructor
  · rintro ⟨_, _, name, rfl, ⟨rfl, isName⟩, ⟨-, read⟩ | ⟨-, read⟩⟩
    all_goals
      obtain ⟨front, _, params, rfl, given, _, _, _, rfl, ⟨semicolon, _, rfl, closes, rfl, -⟩,
        rfl, same⟩ := read
      cases same
      exact .intro (of_decide_eq_true isName) given (of_decide_eq_true closes)
  · rintro ⟨isName, given, closes⟩
    refine ⟨[_], _, _, rfl, ⟨rfl, decide_eq_true isName⟩, fork_same ?_⟩
    exact ⟨_, _, _, rfl, given, [_], [], (), rfl,
      ⟨_, _, rfl, decide_eq_true closes, rfl, rfl⟩, rfl, rfl⟩

theorem procedure_realizes {broken : Breakage} (tolerated : Tolerated broken)
    {nested : Step n (List Program)} {phrase : Phrase (List Program)}
    (realizes : nested.Realizes phrase) (keyword : Token) :
    (procedure nested keyword).Realizes (ProcedureOf phrase (Body broken n) keyword) := by
  unfold procedure
  refine Step.Realizes.congr (.bind procedure_header_realizes fun header =>
    .bind var_section_realizes fun locals => .bind realizes fun procedures =>
      .bind (body_realizes tolerated procedure_end_realizes) fun body =>
        silent_bind_realizes (recover_realizes _)
          (.pure (Program.mk keyword header.1 header.2 locals procedures body.1 body.2))) ?_
  intro script rest value
  constructor
  · rintro ⟨header, _, ⟨name, params⟩, rfl, head, vars, _, locals, rfl, declared, inner, _,
      procedures, rfl, defined, body, _, ⟨opening, list⟩, rfl, done, rfl, rfl⟩
    rw [List.append_nil] at head declared defined ⊢
    simp only [Script.tokens_append, List.append_assoc] at head declared
    exact .intro head declared defined done
  · rintro ⟨head, declared, defined, done⟩
    refine ⟨_, _, (_, _), rfl, ?_, _, _, _, rfl, ?_, _, _, _, rfl, ?_, _, [], (_, _),
      (List.append_nil _).symm, done, rfl, rfl⟩
    · simpa only [Script.tokens_append, List.append_assoc] using head
    · simpa only [Script.tokens_append, List.append_assoc] using declared
    · exact defined

theorem procedures_realizes {broken : Breakage} (tolerated : Tolerated broken) (n : Nat) :
    (procedures n).Realizes (Procedures broken n) := by
  induction n with
  | zero => exact .never
  | succ n induction =>
      refine Step.Realizes.congr (.map (row_realizes rfl
        (fun keyword => Rule.Realizes.of_step (procedure_realizes tolerated induction keyword)) (n + 1)
        (Nat.le_refl _)) Row.items) ?_
      intro script rest value
      constructor
      · rintro ⟨⟨_, _⟩, ⟨-, read⟩, rfl⟩
        exact read
      · intro read
        exact ⟨⟨value, true⟩, ⟨rfl, read⟩, rfl⟩

theorem program_header_realizes :
    (programHeader : Step n (Token × Token)).Realizes
      (after (· = .programKw) fun keyword => after (· = .ident) fun name =>
        after (· = .semicolon) fun _ => silent (keyword, name)) := by
  unfold programHeader
  refine Step.Realizes.congr (.bind (expect_or_realizes _ _ (by decide)) fun keyword =>
    current_bind_realizes fun found =>
      .bind (unless_panicking_realizes _ (expect_or_realizes _ _ (by decide))) fun name =>
        .bind (unless_panicking_realizes () (expect_only_realizes .semicolon _ (by decide))) fun _ =>
          silent_bind_realizes (recover_realizes _) (.pure (keyword, name))) ?_
  intro script rest value
  constructor
  · rintro ⟨_, _, keyword, rfl, ⟨rfl, isProgram⟩, _, _, name, rfl, ⟨rfl, isName⟩, _, _, _, rfl,
      ⟨semicolon, _, rfl, closes, rfl, -⟩, rfl, rfl⟩
    exact ⟨keyword, _, rfl, isProgram, name, _, rfl, isName, semicolon, _, rfl, closes, rfl, rfl⟩
  · rintro ⟨keyword, _, rfl, isProgram, name, _, rfl, isName, semicolon, _, rfl, closes, rfl, rfl⟩
    exact ⟨[_], _, keyword, rfl, ⟨rfl, isProgram⟩, [_], _, name, rfl, ⟨rfl, isName⟩, [_], [], (),
      rfl, ⟨semicolon, _, rfl, closes, rfl, rfl⟩, rfl, rfl⟩

theorem program_realizes {broken : Breakage} (tolerated : Tolerated broken) (n : Nat) :
    (program n).Realizes (WholeProgram broken n) := by
  unfold program
  refine Step.Realizes.congr (.bind program_header_realizes fun header =>
    .bind var_section_realizes fun locals => .bind (procedures_realizes tolerated n)
      fun procedures => .map (body_realizes tolerated (expect_only_realizes .dot _ (by decide)))
        fun body => Program.mk header.1 header.2 none locals procedures body.1 body.2) ?_
  intro script rest value
  constructor
  · rintro ⟨_, _, _, rfl, ⟨keyword, _, rfl, isProgram, name, _, rfl, isName, semicolon, _, rfl,
      closes, rfl, rfl⟩, vars, _, locals, rfl, declared, inner, body, procedures, rfl, defined,
      ⟨opening, list⟩, done, rfl⟩
    simp only [Script.tokens_append, List.append_assoc] at declared
    change WholeProgram broken n
      (.read keyword :: .read name :: .read semicolon :: (vars ++ (inner ++ body))) rest _
    exact .intro (of_decide_eq_true isProgram) (of_decide_eq_true isName)
      (of_decide_eq_true closes) declared defined done
  · rintro ⟨isProgram, isName, closes, declared, defined, done⟩
    refine ⟨[_, _, _], _, (_, _), rfl, ⟨_, _, rfl, decide_eq_true isProgram, _, _, rfl,
      decide_eq_true isName, _, _, rfl, decide_eq_true closes, rfl, rfl⟩, _, _, _, rfl, ?_,
      _, _, _, rfl, defined, (_, _), done, rfl⟩
    simpa only [Script.tokens_append, List.append_assoc] using declared

end Step

end TinyPascal
