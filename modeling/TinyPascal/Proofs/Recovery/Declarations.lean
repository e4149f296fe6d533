import TinyPascal.Proofs.Recovery.Boundary

/-!
# Rules of declarations in front of a boundary

Groups of names, lists of variables and lists of parameters, each of them read or given up.
-/

namespace TinyPascal

set_option autoImplicit false

/-- The kinds that a list of declarations is made of, its parentheses and semicolons included. -/
def Kind.declares : Kind → Bool
  | .ident | .comma | .colon | .semicolon | .lparen | .rparen => true
  | kind => kind.isTypeName

theorem apart_ends_variables : Apart Kind.endsVariables Kind.declares := by
  intro kind
  cases kind <;> decide

theorem apart_ends_header : Apart Kind.endsHeader Kind.declares := by
  intro kind
  cases kind <;> decide

namespace Apart

variable {stops kinds : Kind → Bool}

theorem only (apart : Apart stops Kind.declares) {kind : Kind} (declares : kind.declares = true) :
    Apart stops (· = kind) := by
  intro other same
  rw [of_decide_eq_true same]
  exact apart kind declares

theorem types (apart : Apart stops Kind.declares) : Apart stops Kind.isTypeName := by
  intro kind isType
  apply apart
  revert isType
  cases kind <;> decide

end Apart

namespace Rule

open Phrase

variable {stops : Kind → Bool} {boundary : List Token} {n : Nat}

theorem tries_identifier (apart : Apart stops Kind.declares) :
    Tries stops boundary (identifier : Rule n Token) (one (· = .ident)) :=
  tries_expect_any (apart.only rfl) (tries_refuse_quoting _ _)

theorem tries_type_name (apart : Apart stops Kind.declares) :
    Tries stops boundary (typeName : Rule n Token) (one Kind.isTypeName) :=
  tries_expect_any apart.types (tries_refuse_quoting _ _)

theorem tries_group (apart : Apart stops Kind.declares) (first : Token) :
    Tries stops boundary (group first : Rule n Declaration) (Group first) := by
  have row : Tries stops boundary (Rule.row (· = .comma) fun _ => identifier : Rule n (List Token))
      (Series (· = .comma) fun _ => one (· = .ident)) :=
    tries_row (apart.only rfl) fun _ => tries_identifier apart
  have colon : Tries stops boundary (expect .colon .typeColon : Rule n Token) (one (· = .colon)) :=
    tries_expect _ (apart .colon rfl)
  unfold group
  apply (tries_bind row fun others => tries_bind colon fun _ => tries_bind (tries_type_name apart)
    fun type => tries_pure (Declaration.mk type (first :: others))).weaken
  rintro script rest _ ⟨front, _, others, rfl, names, _, _, colon, rfl, ⟨rfl, isColon⟩, _, _, type,
    rfl, ⟨rfl, isType⟩, rfl, rfl⟩
  exact .intro names (of_decide_eq_true isColon) isType

theorem tries_variable_group (apart : Apart stops Kind.declares) (first : Token) :
    Tries stops boundary (variableGroup first : Rule n Declaration) (VariableGroup first) := by
  have semicolon : Tries stops boundary (expect .semicolon .declarationEnd : Rule n Token)
      (one (· = .semicolon)) := tries_expect _ (apart .semicolon rfl)
  unfold variableGroup
  apply (tries_bind (tries_group apart first) fun declaration => tries_bind semicolon fun _ =>
    tries_pure declaration).weaken
  rintro script rest _ ⟨front, _, declaration, rfl, group, _, _, semicolon, rfl, ⟨rfl, closes⟩, rfl, rfl⟩
  exact .intro group (of_decide_eq_true closes)

theorem tries_param_group (apart : Apart stops Kind.declares) :
    Tries stops boundary (paramGroup : Rule n Declaration) ParamGroup := by
  unfold paramGroup
  apply (tries_bind (tries_identifier apart) fun first => tries_group apart first).weaken
  rintro script rest _ ⟨_, back, first, rfl, ⟨rfl, isName⟩, group⟩
  exact .intro (of_decide_eq_true isName) group

end Rule

namespace Step

open Phrase ParseState

variable {stops : Kind → Bool} {boundary : List Token} {n : Nat} {α : Type}

theorem tries_variable_groups (apart : Apart stops Kind.declares) :
    Tries stops boundary (Row.items <$> variableGroups : Step n (List Declaration))
      (fork (· = .ident) (Series (· = .ident) VariableGroup) nothing) anyhow := by
  have listed : Tries stops boundary (do
      let groups ← Step.row (· = .ident) Rule.variableGroup n (Nat.le_succ n)
      return groups.items : Step n (List Declaration))
      (Series (· = .ident) VariableGroup) anyhow := by
    apply (tries_map (tries_row (apart.only rfl) (fun first => Rule.tries_variable_group apart first) n
      (Nat.le_succ n)) Row.items).weaken _ fun _ ended => ended
    rintro script rest _ ⟨groups, ⟨_, series⟩, rfl⟩
    exact series
  have refused : Tries stops boundary (do
      let _ ← (Rule.refuseQuoting .identifier : Rule n Unit).run
      return [] : Step n (List Declaration)) nothing anyhow := by
    apply (tries_map (Rule.tries_refuse_quoting _ nothing) fun _ => []).weaken _ fun _ ended => ended
    rintro script rest _ ⟨_, ⟨_, _, impossible⟩, _⟩
    exact impossible
  rw [items_variable_groups]
  exact tries_sees_bind listed refused

theorem tries_param_groups (apart : Apart stops Kind.declares) :
    Tries stops boundary (Row.items <$> paramGroups : Step n (List Declaration))
      (seq ParamGroup fun first => seq (Series (· = .semicolon) fun _ => ParamGroup) fun others =>
        after (· = .rparen) fun _ => silent (first :: others)) anyhow := by
  have close : ∀ (first : Declaration) (others : Row Declaration), Tries stops boundary
      (if others.complete = true then do
          let _ ← (Rule.expect .rparen .parametersEnd).run
          return first :: others.items
        else return first :: others.items : Step n (List Declaration))
      (if others.complete = true then after (· = .rparen) fun _ => silent (first :: others.items)
        else silent (first :: others.items)) anyhow := by
    intro first others
    split
    · apply (tries_map (Rule.tries_expect .parametersEnd (apart .rparen rfl))
        fun _ => first :: others.items).weaken _ fun _ ended => ended
      rintro script rest _ ⟨_, ⟨closing, rfl, rfl, closes⟩, rfl⟩
      exact ⟨closing, [], rfl, closes, rfl, rfl⟩
    · exact tries_pure _
  have tail : ∀ first : Declaration, Tries stops boundary (do
        let others ← Step.row (· = .semicolon) (fun _ => Rule.paramGroup) n (Nat.le_succ n)
        if others.complete then
          let _ ← (Rule.expect .rparen .parametersEnd).run
        return first :: others.items : Step n (List Declaration))
      (seq (fullRow (· = .semicolon) fun _ => ParamGroup) fun others =>
        if others.complete = true then after (· = .rparen) fun _ => silent (first :: others.items)
        else silent (first :: others.items)) anyhow := by
    intro first
    have row : Tries stops boundary
        (Step.row (· = .semicolon) (fun _ => Rule.paramGroup) n (Nat.le_succ n)) _ _ :=
      tries_row (apart.only rfl) (fun _ => Rule.tries_param_group apart) n (Nat.le_succ n)
    apply tries_bind row (close first)
    intro others incomplete s bounded _
    rw [incomplete]
    exact ⟨trivial, rfl⟩
  rw [items_param_groups]
  refine Tries.weaken (tries_bind (Rule.tries_param_group apart)
    (tries_either (tries_pure []) tail) ?_) ?_ fun _ ended => ended
  · rintro _ rfl s bounded _
    exact ⟨trivial, rfl⟩
  rintro script rest value ⟨front, _, _, rfl, ⟨first, rfl, head⟩, back, last, others, rfl,
    ⟨complete, series⟩, ended⟩
  rw [if_pos complete] at ended
  exact ⟨front, _, first, rfl, head, back, last, others.items, rfl, series, ended⟩

theorem tries_params (apart : Apart stops Kind.declares) (opening : Token) :
    Tries stops boundary (params opening : Step n (Option Variables)) (Params opening) anyhow := by
  have empty : ∀ closing : Token, Tries stops boundary
      (do warn closing .emptyParameters; return none : Step n (Option Variables)) _ anyhow :=
    fun closing => tries_warn_bind (tries_pure none)
  have groups : Tries stops boundary (Row.items <$> paramGroups : Step n (List Declaration)) _
      anyhow :=
    tries_param_groups apart
  have listed := tries_map groups fun groups => some (Variables.mk opening groups)
  have whole : Tries stops boundary (params opening : Step n (Option Variables)) _ anyhow :=
    tries_take_bind (apart.only rfl) empty listed
  apply whole.weaken _ fun _ ended => ended
  rintro script rest value (⟨closing, _, rfl, closes, _, rfl, rfl, rfl⟩ |
    ⟨-, _, ⟨front, _, first, rfl, head, back, _, others, rfl, tail, closing, _, rfl, closes, rfl,
      rfl⟩, rfl⟩)
  · exact .empty (of_decide_eq_true closes)
  · rw [Script.tokens_append, List.append_assoc] at head
    exact .listed head tail (of_decide_eq_true closes)

end Step

end TinyPascal
