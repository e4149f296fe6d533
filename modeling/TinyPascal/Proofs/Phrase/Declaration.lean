import TinyPascal.Parser.Declaration
import TinyPascal.Proofs.Phrase.Expression

/-!
# Phrases of declarations
-/

namespace TinyPascal

set_option autoImplicit false

namespace Phrase

inductive Group (first : Token) : Phrase Declaration
  | intro {colon type : Token} {script : Script} {rest : List Token} {others : List Token}
      (names : Series (· = .comma) (fun _ => one (· = .ident)) script (colon :: type :: rest) others)
      (isColon : colon.kind = .colon) (isType : type.kind.isTypeName = true) :
      Group first (script ++ [.read colon, .read type]) rest ⟨type, first :: others⟩

inductive VariableGroup (first : Token) : Phrase Declaration
  | intro {semicolon : Token} {script : Script} {rest : List Token} {declaration : Declaration}
      (group : Group first script (semicolon :: rest) declaration)
      (closes : semicolon.kind = .semicolon) :
      VariableGroup first (script ++ [.read semicolon]) rest declaration

inductive ParamGroup : Phrase Declaration
  | intro {first : Token} {script : Script} {rest : List Token} {declaration : Declaration}
      (isName : first.kind = .ident) (group : Group first script rest declaration) :
      ParamGroup (.read first :: script) rest declaration

inductive VarSection : Phrase (Option Variables)
  | none {rest : List Token} (absent : faces (· = .varKw) rest = false) : VarSection [] rest none
  | some {keyword : Token} {script : Script} {rest : List Token} {groups : List Declaration}
      (isVar : keyword.kind = .varKw)
      (named : faces (· = .ident) (script.tokens ++ rest) = true)
      (read : Series (· = .ident) VariableGroup script rest groups) :
      VarSection (.read keyword :: script) rest (some ⟨keyword, groups⟩)

inductive Params (opening : Token) : Phrase (Option Variables)
  | empty {closing : Token} {rest : List Token} (closes : closing.kind = .rparen) :
      Params opening [.read closing, Script.warning closing .emptyParameters] rest none
  | listed {closing : Token} {front back : Script} {rest : List Token} {first : Declaration}
      {others : List Declaration} (head : ParamGroup front (back.tokens ++ closing :: rest) first)
      (tail : Series (· = .semicolon) (fun _ => ParamGroup) back (closing :: rest) others)
      (closes : closing.kind = .rparen) :
      Params opening (front ++ (back ++ [.read closing])) rest (some ⟨opening, first :: others⟩)

end Phrase

namespace Rule

open Phrase

variable {n : Nat}

theorem identifier_realizes : Realizes (identifier : Rule n Token) (one (· = .ident)) :=
  expect_any_realizes rfl (refuse_quoting_realizes _)

theorem type_name_realizes : Realizes (typeName : Rule n Token) (one Kind.isTypeName) :=
  expect_any_realizes rfl (refuse_quoting_realizes _)

theorem group_realizes (first : Token) :
    Realizes (group first : Rule n Declaration) (Group first) := by
  unfold group
  refine Realizes.congr (.bind (row_realizes rfl fun _ => identifier_realizes) fun others =>
    expect_bind_realizes (by decide) fun _ =>
      .map type_name_realizes fun type => Declaration.mk type (first :: others)) ?_
  intro script rest value
  constructor
  · rintro ⟨front, _, others, rfl, names, colon, _, rfl, isColon, type, ⟨rfl, isType⟩, rfl⟩
    exact .intro names (of_decide_eq_true isColon) isType
  · rintro ⟨names, isColon, isType⟩
    exact ⟨_, _, _, rfl, names, _, _, rfl, decide_eq_true isColon, _, ⟨rfl, isType⟩, rfl⟩

theorem variable_group_realizes (first : Token) :
    Realizes (variableGroup first : Rule n Declaration) (VariableGroup first) := by
  unfold variableGroup
  refine Realizes.congr (.bind (group_realizes first) fun declaration =>
    expect_bind_realizes (by decide) fun _ => .pure declaration) ?_
  intro script rest value
  constructor
  · rintro ⟨front, _, declaration, rfl, group, semicolon, _, rfl, closes, rfl, rfl⟩
    exact .intro group (of_decide_eq_true closes)
  · rintro ⟨group, closes⟩
    exact ⟨_, _, _, rfl, group, _, _, rfl, decide_eq_true closes, rfl, rfl⟩

theorem param_group_realizes : Realizes (paramGroup : Rule n Declaration) ParamGroup := by
  unfold paramGroup
  apply Realizes.congr (.bind identifier_realizes fun first => group_realizes first)
  intro script rest value
  constructor
  · rintro ⟨_, back, first, rfl, ⟨rfl, isName⟩, group⟩
    exact .intro (of_decide_eq_true isName) group
  · rintro ⟨isName, group⟩
    exact ⟨[_], _, _, rfl, ⟨rfl, decide_eq_true isName⟩, group⟩

end Rule

namespace Step

open Phrase

variable {n : Nat}

theorem variable_groups_realizes :
    (Row.items <$> variableGroups : Step n (List Declaration)).Realizes
      (fork (· = .ident) (Series (· = .ident) VariableGroup) nothing) := by
  have refused : (do
      let _ ← (Rule.refuseQuoting .identifier : Rule n Unit).run
      return [] : Step n (List Declaration)).Realizes nothing :=
    .of_failing fun _ _ => rfl
  rw [items_variable_groups]
  refine Step.Realizes.congr (sees_bind_realizes
    (.map (row_realizes rfl Rule.variable_group_realizes n (Nat.le_succ n)) Row.items) refused) ?_
  intro script rest value
  constructor
  · rintro (⟨named, ⟨_, _⟩, ⟨-, read⟩, rfl⟩ | ⟨-, impossible⟩)
    · exact .inl ⟨named, read⟩
    · exact impossible.elim
  · rintro (⟨named, read⟩ | ⟨-, impossible⟩)
    · exact .inl ⟨named, ⟨value, true⟩, ⟨rfl, read⟩, rfl⟩
    · exact impossible.elim

theorem var_section_realizes : (varSection : Step n (Option Variables)).Realizes VarSection := by
  unfold varSection
  refine Step.Realizes.congr (take_bind_realizes rfl (fun keyword =>
    .bind variable_groups_realizes fun groups => silent_bind_realizes (recover_realizes _)
      (.pure (some (Variables.mk keyword groups)))) (.pure none)) ?_
  intro script rest value
  constructor
  · rintro (⟨keyword, _, rfl, isVar, front, _, groups, rfl, ⟨named, read⟩ | ⟨-, impossible⟩,
      rfl, rfl⟩ | ⟨absent, rfl, rfl⟩)
    · rw [List.append_nil]
      exact .some (of_decide_eq_true isVar) named read
    · exact impossible.elim
    · exact .none absent
  · intro found
    cases found with
    | none absent => exact .inr ⟨absent, rfl, rfl⟩
    | some isVar named read =>
        exact .inl ⟨_, _, rfl, decide_eq_true isVar, _, [], _, (List.append_nil _).symm,
          .inl ⟨named, read⟩, rfl, rfl⟩

theorem param_groups_realizes :
    (Row.items <$> paramGroups : Step n (List Declaration)).Realizes
      (seq ParamGroup fun first => seq (Series (· = .semicolon) fun _ => ParamGroup) fun others =>
        after (· = .rparen) fun _ => silent (first :: others)) := by
  have close : ∀ (first : Declaration) (others : Row Declaration),
      (if others.complete = true then do
          let _ ← (Rule.expect .rparen .parametersEnd).run
          return first :: others.items
        else return first :: others.items : Step n (List Declaration)).Realizes
      (if others.complete = true then after (· = .rparen) fun _ => silent (first :: others.items)
        else silent (first :: others.items)) := by
    intro first others
    refine .ite others.complete ?_ (.pure _)
    exact Rule.expect_run_bind_realizes (by decide) (fun _ => .pure _) (.pure _)
  rw [items_param_groups]
  refine Step.Realizes.congr (Rule.run_bind_realizes Rule.param_group_realizes (fun first =>
    .bind (row_realizes rfl (fun _ => Rule.param_group_realizes) n (Nat.le_succ n)) (close first))
    (.pure [])) ?_
  intro script rest value
  constructor
  · rintro ⟨front, _, first, rfl, head, back, last, ⟨others, _⟩, rfl, ⟨rfl, tail⟩, ended⟩
    exact ⟨front, _, first, rfl, head, back, last, others, rfl, tail, ended⟩
  · rintro ⟨front, _, first, rfl, head, back, last, others, rfl, tail, ended⟩
    exact ⟨front, _, first, rfl, head, back, last, ⟨others, true⟩, rfl, ⟨rfl, tail⟩, ended⟩

theorem params_realizes (opening : Token) :
    (params opening : Step n (Option Variables)).Realizes (Params opening) := by
  unfold params
  refine Step.Realizes.congr (take_bind_realizes rfl (fun closing =>
    warn_bind_realizes (.pure none))
    (.map param_groups_realizes fun groups => some (Variables.mk opening groups))) ?_
  intro script rest value
  constructor
  · rintro (⟨closing, _, rfl, closes, _, rfl, rfl, rfl⟩ |
      ⟨-, _, ⟨front, _, first, rfl, head, back, _, others, rfl, tail, closing, _, rfl, closes, rfl,
        rfl⟩, rfl⟩)
    · exact .empty (of_decide_eq_true closes)
    · rw [Script.tokens_append, List.append_assoc] at head
      exact .listed head tail (of_decide_eq_true closes)
  · intro found
    cases found with
    | empty closes => exact .inl ⟨_, _, rfl, decide_eq_true closes, _, rfl, rfl, rfl⟩
    | listed head tail closes =>
        refine .inr ⟨?_, _, ⟨_, _, _, rfl, ?_, _, _, _, rfl, tail, _, _, rfl,
          decide_eq_true closes, rfl, rfl⟩, rfl⟩
        · obtain ⟨isName, -⟩ := head
          simp [isName]
        · rw [Script.tokens_append, List.append_assoc]
          exact head

end Step

end TinyPascal
