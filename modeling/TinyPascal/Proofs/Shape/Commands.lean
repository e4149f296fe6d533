import Mathlib.Data.List.ReduceOption
import TinyPascal.Parser.Command
import TinyPascal.Proofs.Shape.Expressions

/-!
# What is made of a command

A broken command leaves nothing in the tree, and a list goes on behind it. So all that a list
keeps was read whole. A choice without `else` is made only where no `else` follows, which is why
it never ends the first branch of a choice that has one.
-/

namespace TinyPascal

set_option autoImplicit false

open Phrase (faces)

namespace Command

/-- The command is shaped, its tokens are among those read, and no `else` follows a choice at its
end that could take it. -/
structure Made (read rest : List Token) (command : Command) : Prop where
  shaped : command.Shaped
  kept : command.tokens.Sublist read
  closed : command.endsOpen = true → faces (· = .elseKw) rest = false

def Shaped? (command : Option Command) : Prop := ∀ made ∈ command, made.Shaped

def tokens? (command : Option Command) : List Token := (command.map tokens).getD []

theorem shaped?_none : Shaped? none := by
  intro made same
  cases same

theorem shaped_reduce_option {commands : List (Option Command)}
    (each : ∀ command ∈ commands, Shaped? command) :
    ∀ command ∈ commands.reduceOption, command.Shaped := by
  intro command member
  exact each _ (List.reduceOption_mem_iff.mp member) command rfl

theorem tokens_all_reduce_option (commands : List (Option Command)) :
    tokensAll commands.reduceOption = commands.flatMap tokens? := by
  rw [tokens_all_eq]
  induction commands with
  | nil => rfl
  | cons command commands induction =>
      cases command with
      | none => exact induction
      | some command =>
          rw [List.reduceOption_cons_of_some, List.flatMap_cons, List.flatMap_cons, induction]
          rfl

/-- The commands of a list are shaped, and their tokens are among those read. -/
def MadeAll (read : List Token) (_ : List Token) (commands : List Command) : Prop :=
  (∀ command ∈ commands, command.Shaped) ∧ (tokensAll commands).Sublist read

namespace Made

variable {read first second third behind rest others : List Token}
  {keyword opening between middle : Token} {condition : Expr} {branch otherwise body : Command}
  {commands : List Command}

theorem block (isBegin : opening.kind = .beginKw) (shaped : ∀ command ∈ commands, command.Shaped)
    (kept : (tokensAll commands).Sublist read) :
    Made (opening :: read) rest (.block opening commands) := by
  apply Made.mk (.block isBegin shaped)
  · exact kept.cons_cons opening
  · intro openEnd
    cases openEnd

theorem if_then (isIf : keyword.kind = .ifKw) (decides : condition.Made .whole first behind)
    (made : Made second rest branch) (alone : faces (· = .elseKw) rest = false) :
    Made (keyword :: (first ++ between :: second)) rest (.ifThen keyword condition branch) := by
  apply Made.mk (.ifThen isIf decides.1 made.shaped)
  · exact (decides.2.append (made.kept.cons between)).cons_cons keyword
  · intro _
    exact alone

theorem closed_before_else (made : Made read (middle :: rest) branch)
    (isElse : middle.kind = .elseKw) : branch.endsOpen = false := by
  cases openEnd : branch.endsOpen with
  | false => rfl
  | true => cases (made.closed openEnd).symm.trans (decide_eq_true isElse)

theorem if_else (isIf : keyword.kind = .ifKw) (decides : condition.Made .whole first behind)
    (made : Made second (middle :: others) branch) (isElse : middle.kind = .elseKw)
    (further : Made third rest otherwise) :
    Made (keyword :: (first ++ between :: (second ++ middle :: third))) rest
      (.ifElse keyword condition branch otherwise) := by
  apply Made.mk
  · exact .ifElse isIf decides.1 made.shaped (made.closed_before_else isElse) further.shaped
  · apply List.Sublist.cons_cons
    apply decides.2.append
    apply List.Sublist.cons
    exact made.kept.append (further.kept.cons middle)
  · exact further.closed

theorem while_do (isWhile : keyword.kind = .whileKw) (decides : condition.Made .whole first behind)
    (made : Made second rest body) :
    Made (keyword :: (first ++ between :: second)) rest (.whileDo keyword condition body) := by
  apply Made.mk (.whileDo isWhile decides.1 made.shaped)
  · exact (decides.2.append (made.kept.cons between)).cons_cons keyword
  · exact made.closed

end Made

end Command

namespace Rule

open TinyPascal.Expr

variable {n : Nat} {words : List Token}

section Lists

variable {command : Rule n Command} (inner : ∀ words, Makes words command Command.Made)

include inner

theorem makes_command_or_none : Step.Makes words (commandOrNone command) fun read _ made =>
    Command.Shaped? made ∧ (Command.tokens? made).Sublist read := by
  apply Step.makes_bind (inner words)
  intro read rest value _ reached
  apply Step.makes_map (Step.makes_recover _)
  intro more _ _ _
  cases value with
  | none => exact ⟨Command.shaped?_none, List.nil_sublist _⟩
  | some value =>
      have made := reached value rfl
      apply And.intro
      · intro command same
        rw [← Option.some.inj same]
        exact made.shaped
      · exact made.kept.trans (List.sublist_append_left _ _)

theorem makes_command_behind (semicolon : Token) :
    Step.Makes words (commandBehind command semicolon) fun read _ made =>
      Command.Shaped? made ∧ (Command.tokens? made).Sublist read := by
  apply Step.makes_still_bind (Step.still_sees _)
  intro answer
  split
  · apply Step.makes_still_bind (Step.still_warn _ _)
    intro _
    exact Step.makes_pure ⟨Command.shaped?_none, List.nil_sublist _⟩
  · exact makes_command_or_none inner

theorem makes_command_list : Step.Makes words (commandList command) Command.MadeAll := by
  apply Step.makes_still_bind (Step.still_sees _)
  intro answer
  split
  · exact Step.makes_pure ⟨List.forall_mem_nil _, List.nil_sublist _⟩
  · apply Step.makes_bind (makes_command_or_none inner)
    intro read rest first _ made
    apply Step.makes_map (Step.makes_separated
      (fun semicolon _ => makes_of_step (makes_command_behind inner semicolon)) _ _ _)
    intro more _ others further
    constructor
    · exact Command.shaped_reduce_option (List.forall_mem_cons.mpr ⟨made.1, further.1⟩)
    · rw [Command.tokens_all_reduce_option, List.flatMap_cons]
      exact made.2.append further.2

end Lists

section Items

variable {expr : Rule n Expr} {inner : Rule n Command}
  (whole : ∀ words, Makes words expr (Made .whole))
  (each : ∀ words, Makes words inner Command.Made)

include whole

theorem makes_assignment_or_call {name : Token} (isName : name.kind = .ident) :
    Makes words (assignmentOrCall expr name) fun read => Command.Made (name :: read) := by
  apply makes_take_bind
  · intro op rest _ isAssign
    apply makes_map (whole rest)
    intro read _ value made
    exact ⟨.assign ⟨isName, of_decide_eq_true isAssign, made.1⟩,
      (made.2.cons_cons op).cons_cons name, fun openEnd => nomatch openEnd⟩
  · intro _
    apply makes_map (makes_arguments whole)
    intro read _ args made
    exact ⟨.call isName made.1, made.2.cons_cons name, fun openEnd => nomatch openEnd⟩

include each

theorem makes_for_loop {keyword : Token} (isFor : keyword.kind = .forKw) :
    Makes words (forLoop expr inner keyword) fun read => Command.Made (keyword :: read) := by
  apply makes_expect_bind
  intro target _ isName
  apply makes_expect_bind
  intro op _ isAssign
  apply makes_bind (whole _)
  intro first _ start _ starts
  apply makes_expect_any_bind fun _ => makes_refuse _
  intro direction _ _
  apply makes_bind (whole _)
  intro second _ bound _ bounds
  apply makes_expect_bind
  intro between _ _
  apply makes_map (each _)
  intro third _ body made
  apply Command.Made.mk
  · exact .forDo isFor ⟨isName, isAssign, starts.1⟩ bounds.1 made.shaped
  · apply List.Sublist.cons_cons
    apply List.Sublist.cons_cons
    apply List.Sublist.cons_cons
    apply starts.2.append
    apply List.Sublist.cons
    apply bounds.2.append
    exact made.kept.cons between
  · exact made.closed

theorem makes_command_of : Makes words (commandOf expr inner) Command.Made := by
  rw [commandOf, trying_eq]
  apply makes_consuming
  · intro name rest _ isName
    exact makes_assignment_or_call whole (of_decide_eq_true isName)
  apply makes_consuming
  · intro opening rest _ isBegin
    rw [block, trying_eq]
    apply makes_bind (makes_of_step (makes_command_list each))
    intro read _ commands _ made
    apply makes_map (makes_expect _ _)
    intro more _ closing _
    have kept := made.2.trans (List.sublist_append_left read more)
    exact .block (of_decide_eq_true isBegin) made.1 kept
  apply makes_consuming
  · intro keyword rest _ isIf
    apply makes_bind (whole rest)
    intro first _ condition _ decides
    apply makes_expect_bind
    intro between _ _
    apply makes_bind (each _)
    intro second others branch _ made
    apply makes_take_bind
    · intro middle rest same isElse
      rw [same] at made
      apply makes_map (each rest)
      intro third _ otherwise further
      exact .if_else (of_decide_eq_true isIf) decides made (of_decide_eq_true isElse) further
    · intro alone
      apply makes_pure
      rw [List.append_nil]
      exact .if_then (of_decide_eq_true isIf) decides made alone
  apply makes_consuming
  · intro keyword rest _ isWhile
    apply makes_bind (whole rest)
    intro first _ condition _ decides
    apply makes_expect_bind
    intro between _ _
    apply makes_map (each _)
    intro second _ body made
    exact .while_do (of_decide_eq_true isWhile) decides made
  apply makes_consuming
  · intro keyword rest _ isFor
    exact makes_for_loop whole each (of_decide_eq_true isFor)
  exact makes_refuse_quoting _

end Items

theorem makes_command (n : Nat) (words : List Token) : Makes words (command n) Command.Made := by
  induction n generalizing words with
  | zero => exact makes_never
  | succ n induction => exact makes_command_of (makes_expression n) induction

end Rule

theorem Step.makes_commands (n : Nat) (words : List Token) :
    Makes words (commands n) Command.MadeAll :=
  Rule.makes_command_list (Rule.makes_command n)

end TinyPascal
