import TinyPascal.Proofs.Recovery.Fence

/-!
# Rules in front of a fence
-/

namespace TinyPascal

set_option autoImplicit false

/-- A rule that keeps in front of the fence. -/
def Rule.Passes (fence : List Token) {n : Nat} {α : Type} (rule : Rule n α) : Prop :=
  Step.Passes fence id rule.run

theorem Step.passes_row {fence : List Token} {n : Nat} {α : Type} {kinds : Kind → Bool}
    {item : Token → Rule n α} (inner : InnerKinds kinds)
    (each : ∀ opening, Rule.Passes fence (item opening)) :
    ∀ (m : Nat) (fits : m ≤ n + 1), Passes fence wholeRow (row kinds item m fits) := by
  intro m
  induction m with
  | zero =>
      intro fits s bounded
      exact absurd bounded (Nat.not_lt_zero _)
  | succ m induction =>
      intro fits
      unfold row
      refine passes_consuming inner (fun opening => ?_) (passes_pure rfl)
      apply passes_bind (passes_within _ (each opening))
      · rintro _ first rfl
        apply passes_bind (induction _)
        · intro others items whole
          have joined : wholeRow { others with items := first :: others.items } =
              some (first :: items) := by
            simp_all [wholeRow]
          exact passes_pure joined
        · intro others partly
          refine ⟨_, rfl, ?_⟩
          simpa [wholeRow] using partly
      · rintro _ rfl
        exact ⟨_, rfl, rfl⟩

namespace Rule

variable {fence : List Token} {n : Nat} {α β : Type}

theorem passes_pure (value : α) : Passes fence (pure value : Rule n α) := Step.passes_pure rfl

theorem passes_bind {rule : Rule n α} {next : α → Rule n β} (head : Passes fence rule)
    (tail : ∀ value, Passes fence (next value)) : Passes fence (rule >>= next) := by
  have run : (rule >>= next).run = rule.run >>= fun read =>
      match read with
      | some value => (next value).run
      | none => pure none := rfl
  unfold Passes
  rw [run]
  apply Step.passes_bind head
  · rintro _ value rfl
    exact tail value
  · rintro _ rfl
    exact ⟨none, rfl, rfl⟩

theorem passes_of_step {step : Step n α} (passes : Step.Passes fence some step) :
    Passes fence (ofStep step) := by
  apply Step.passes_bind passes
  · intro value result _
    exact Step.passes_pure rfl
  · intro value none
    cases none

theorem passes_refuse (problem : SyntacticProblem) : Passes fence (refuse problem : Rule n α) := by
  intro s bounded fenced
  exact .broken (.refl s) Script.mild_nil fenced

theorem passes_refuse_quoting (problem : String → SyntacticProblem) :
    Passes fence (refuseQuoting problem : Rule n α) := by
  intro s bounded fenced
  exact .broken (.refl s) Script.mild_nil fenced

theorem passes_expect_any {kinds : Kind → Bool} {otherwise : Rule n Token}
    (inner : InnerKinds kinds)
    (missing : Passes fence otherwise) : Passes fence (expectAny kinds otherwise) := by
  apply passes_bind (passes_of_step (Step.passes_take inner))
  intro token
  cases token with
  | none => exact missing
  | some token => exact passes_pure token

theorem passes_expect {kind : Kind} (problem : SyntacticProblem) (inner : InnerKinds (· = kind)) :
    Passes fence (expect kind problem : Rule n Token) :=
  passes_expect_any inner (passes_refuse problem)

theorem passes_consuming {kinds : Kind → Bool} {behind : Token → Rule n α}
    {otherwise : Rule (n + 1) α} (inner : InnerKinds kinds)
    (found : ∀ token, Passes fence (behind token)) (missing : Passes fence otherwise) :
    Passes fence (consuming kinds behind otherwise) :=
  Step.passes_consuming inner found missing

theorem passes_consuming_begin {behind : Token → Rule n α} {otherwise : Rule (n + 1) α}
    (missing : Passes fence otherwise) : Passes fence (consuming (· = .beginKw) behind otherwise) :=
  Step.passes_consuming_begin missing

theorem passes_row {kinds : Kind → Bool} {item : Token → Rule n α}
    (inner : InnerKinds kinds)
    (each : ∀ opening, Passes fence (item opening)) : Passes fence (row kinds item) := by
  have run : (row kinds item).run = Step.row kinds item n (Nat.le_succ n) >>= fun read =>
      pure (Step.wholeRow read) := by
    have each : ∀ read : Row α, (if read.complete = true then pure read.items else failure :
        Rule n (List α)).run = pure (Step.wholeRow read) := by
      intro read
      unfold Step.wholeRow
      split <;> rfl
    exact congrArg (Step.row kinds item n (Nat.le_succ n) >>= ·) (funext each)
  unfold Passes
  rw [run]
  apply Step.passes_bind (Step.passes_row inner each n (Nat.le_succ n))
  · intro read items whole
    exact Step.passes_pure whole
  · intro read partly
    exact ⟨_, rfl, partly⟩

section Expressions

theorem passes_chain {kinds : Kind → Bool} {operand : Rule n Expr}
    (inner : InnerKinds kinds)
    (each : Passes fence operand) (first : Expr) : Passes fence (chain kinds operand first) :=
  passes_bind (passes_row inner fun op => passes_bind each fun right => passes_pure (op, right))
    fun _ => passes_pure _

theorem passes_term {factor : Rule n Expr} (each : Passes fence factor) :
    Passes fence (term factor) :=
  passes_bind each (passes_chain ⟨rfl, rfl⟩ each)

theorem passes_simple_expr {factor : Rule n Expr} (each : Passes fence factor) :
    Passes fence (simpleExpr factor) := by
  have terms := passes_term each
  rw [simpleExpr, trying_eq]
  apply passes_bind (passes_of_step (Step.passes_take ⟨rfl, rfl⟩))
  intro sign
  exact passes_bind terms fun first => passes_chain ⟨rfl, rfl⟩ terms _

theorem passes_expr {factor : Rule n Expr} (each : Passes fence factor) :
    Passes fence (expr factor) := by
  have simples := passes_simple_expr each
  apply passes_bind simples
  intro left
  apply passes_bind (passes_of_step (Step.passes_take ⟨rfl, rfl⟩))
  intro op
  cases op with
  | none => exact passes_pure left
  | some op => exact passes_bind simples fun right => passes_pure _

theorem passes_arguments {expr : Rule n Expr} (each : Passes fence expr) :
    Passes fence (arguments expr) := by
  have close : ∀ args : List Expr, Passes fence
      (do
        let _ ← expect .rparen .argumentsEnd
        return some args : Rule n (Option (List Expr))) := by
    intro args
    exact passes_bind (passes_expect _ ⟨rfl, rfl⟩) fun _ => passes_pure _
  rw [arguments, trying_eq]
  apply passes_bind (passes_of_step (Step.passes_take ⟨rfl, rfl⟩))
  intro opening
  cases opening with
  | none => exact passes_pure none
  | some opening =>
      apply passes_bind (passes_of_step (Step.passes_sees _))
      intro faced
      cases faced with
      | true => exact passes_bind (passes_of_step (Step.passes_warn _ _)) fun _ => close []
      | false =>
          have list : Passes fence (commaList expr) := by
            apply passes_bind each
            intro first
            exact passes_bind (passes_row ⟨rfl, rfl⟩ fun _ => each)
              fun _ => passes_pure _
          exact passes_bind list close

theorem passes_factor (n : Nat) : Passes fence (factor n) := by
  induction n with
  | zero =>
      intro s bounded
      exact absurd bounded (Nat.not_lt_zero _)
  | succ n induction =>
      have inner := passes_expr induction
      rw [factor, factorOf, trying_eq]
      apply passes_consuming ⟨rfl, rfl⟩ (fun _ => passes_pure _)
      refine passes_consuming ⟨rfl, rfl⟩
        (fun _ => passes_bind induction fun _ => passes_pure _) ?_
      refine passes_consuming ⟨rfl, rfl⟩ (fun opening => ?_) ?_
      · exact passes_bind inner fun _ => passes_bind (passes_expect _ ⟨rfl, rfl⟩) fun _ => passes_pure _
      refine passes_consuming ⟨rfl, rfl⟩ (fun name => ?_)
        (passes_refuse_quoting _)
      apply passes_bind (passes_arguments inner)
      intro args
      cases args with
      | none => exact passes_pure _
      | some args => exact passes_pure _

theorem passes_expression (n : Nat) : Passes fence (expression n) := passes_expr (passes_factor n)

end Expressions

theorem passes_assignment_or_call {expr : Rule n Expr} (each : Passes fence expr) (name : Token) :
    Passes fence (assignmentOrCall expr name) := by
  apply passes_bind (passes_of_step (Step.passes_take ⟨rfl, rfl⟩))
  intro op
  cases op with
  | none => exact passes_bind (passes_arguments each) fun _ => passes_pure _
  | some op => exact passes_bind each fun _ => passes_pure _

theorem passes_for_loop {expr : Rule n Expr} {command : Rule n Command} (each : Passes fence expr)
    (inner : Passes fence command) (keyword : Token) :
    Passes fence (forLoop expr command keyword) := by
  apply passes_bind (passes_expect _ ⟨rfl, rfl⟩)
  intro target
  apply passes_bind (passes_expect _ ⟨rfl, rfl⟩)
  intro op
  apply passes_bind each
  intro start
  apply passes_bind (passes_expect_any ⟨rfl, rfl⟩ (passes_refuse _))
  intro direction
  apply passes_bind each
  intro bound
  apply passes_bind (passes_expect _ ⟨rfl, rfl⟩)
  intro _
  exact passes_bind inner fun body => passes_pure _

theorem passes_command (n : Nat) : Passes fence (command n) := by
  induction n with
  | zero =>
      intro s bounded
      exact absurd bounded (Nat.not_lt_zero _)
  | succ n induction =>
      have expr : Passes fence (expression n) := passes_expression n
      rw [command, commandOf, trying_eq]
      refine passes_consuming ⟨rfl, rfl⟩
        (passes_assignment_or_call expr) ?_
      apply passes_consuming_begin
      refine passes_consuming ⟨rfl, rfl⟩ (fun keyword => ?_) ?_
      · apply passes_bind expr
        intro condition
        apply passes_bind (passes_expect _ ⟨rfl, rfl⟩)
        intro _
        apply passes_bind induction
        intro branch
        apply passes_bind (passes_of_step (Step.passes_take ⟨rfl, rfl⟩))
        intro elseWord
        cases elseWord with
        | none => exact passes_pure _
        | some elseWord => exact passes_bind induction fun _ => passes_pure _
      refine passes_consuming ⟨rfl, rfl⟩ (fun keyword => ?_) ?_
      · apply passes_bind expr
        intro condition
        apply passes_bind (passes_expect _ ⟨rfl, rfl⟩)
        intro _
        exact passes_bind induction fun body => passes_pure _
      exact passes_consuming ⟨rfl, rfl⟩
        (passes_for_loop expr induction) (passes_refuse_quoting _)

end Rule

end TinyPascal
