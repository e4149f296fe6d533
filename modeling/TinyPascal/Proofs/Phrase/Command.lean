import TinyPascal.Parser.Command
import TinyPascal.Proofs.Phrase.Expression

/-!
# Phrases of commands

A list of commands may hold broken ones, which it leaves out. Which scripts count
as broken commands is a parameter: with none of them, the phrases are those of
the language.
-/

namespace TinyPascal

set_option autoImplicit false

namespace Phrase

/-- Scripts that a list of commands passes over. -/
abbrev Breakage := Script → List Token → Prop

def unbroken : Breakage := fun _ _ => False

/-- A command, or a broken one that leaves nothing. -/
def Element (broken : Breakage) (command : Phrase Command) : Phrase (Option Command) :=
  fun script rest value =>
    command.kept script rest value ∨ (broken script rest ∧ value = none)

def Behind (element : Phrase (Option Command)) (semicolon : Token) : Phrase (Option Command) :=
  fork (· = .endKw) (noting (Script.warning semicolon .trailingSemicolon) (silent none)) element

inductive Commands (element : Phrase (Option Command)) : Phrase (List Command)
  | none {rest : List Token} (ended : faces (· = .endKw) rest = true) : Commands element [] rest []
  | some {front back : Script} {rest : List Token} {first : Option Command}
      {others : List (Option Command)}
      (begun : faces (· = .endKw) (front.tokens ++ (back.tokens ++ rest)) = false)
      (head : element front (back.tokens ++ rest) first)
      (tail : Series (· = .semicolon) (Behind element) back rest others) :
      Commands element (front ++ back) rest (first :: others).reduceOption

inductive CommandOf (expr : Phrase Expr) (broken : Breakage) (command : Phrase Command) :
    Phrase Command
  | assign {target op : Token} {script : Script} {rest : List Token} {value : Expr}
      (isName : target.kind = .ident) (assigns : op.kind = .assign)
      (right : expr script rest value) :
      CommandOf expr broken command (.read target :: .read op :: script) rest
        (.assign ⟨op, target, value⟩)
  | bareCall {name : Token} {rest : List Token} (isName : name.kind = .ident)
      (noAssign : faces (· = .assign) rest = false) (bare : faces (· = .lparen) rest = false) :
      CommandOf expr broken command [.read name] rest (.call name (some []) none)
  | call {name : Token} {script : Script} {rest : List Token} {args : List Expr}
      (isName : name.kind = .ident) (given : Arguments expr script rest args) :
      CommandOf expr broken command (.read name :: script) rest (.call name (some args) none)
  | block {opening closing : Token} {script : Script} {rest : List Token}
      {commands : List Command} (opens : opening.kind = .beginKw)
      (inner : Commands (Element broken command) script (closing :: rest) commands)
      (closes : closing.kind = .endKw) :
      CommandOf expr broken command (.read opening :: (script ++ [.read closing])) rest
        (.block opening commands)
  | ifThen {keyword thenWord : Token} {front back : Script} {rest : List Token}
      {condition : Expr} {branch : Command} (isIf : keyword.kind = .ifKw)
      (test : expr front (thenWord :: (back.tokens ++ rest)) condition)
      (isThen : thenWord.kind = .thenKw) (yes : command back rest branch)
      (alone : faces (· = .elseKw) rest = false) :
      CommandOf expr broken command (.read keyword :: (front ++ .read thenWord :: back)) rest
        (.ifThen keyword condition branch)
  | ifElse {keyword thenWord elseWord : Token} {front middle back : Script} {rest : List Token}
      {condition : Expr} {branch otherwise : Command} (isIf : keyword.kind = .ifKw)
      (test : expr front (thenWord :: (middle.tokens ++ elseWord :: (back.tokens ++ rest))) condition)
      (isThen : thenWord.kind = .thenKw)
      (yes : command middle (elseWord :: (back.tokens ++ rest)) branch)
      (isElse : elseWord.kind = .elseKw) (no : command back rest otherwise) :
      CommandOf expr broken command
        (.read keyword :: (front ++ .read thenWord :: (middle ++ .read elseWord :: back))) rest
        (.ifElse keyword condition branch otherwise)
  | whileDo {keyword doWord : Token} {front back : Script} {rest : List Token}
      {condition : Expr} {body : Command} (isWhile : keyword.kind = .whileKw)
      (test : expr front (doWord :: (back.tokens ++ rest)) condition)
      (isDo : doWord.kind = .doKw) (repeated : command back rest body) :
      CommandOf expr broken command (.read keyword :: (front ++ .read doWord :: back)) rest
        (.whileDo keyword condition body)
  | forDo {keyword target op toWord doWord : Token} {front middle back : Script}
      {rest : List Token} {start bound : Expr} {body : Command} (isFor : keyword.kind = .forKw)
      (isName : target.kind = .ident) (assigns : op.kind = .assign)
      (begins : expr front (toWord :: (middle.tokens ++ doWord :: (back.tokens ++ rest))) start)
      (isTo : toWord.kind = .toKw ∨ toWord.kind = .downtoKw)
      (upTo : expr middle (doWord :: (back.tokens ++ rest)) bound)
      (isDo : doWord.kind = .doKw) (repeated : command back rest body) :
      CommandOf expr broken command
        (.read keyword :: .read target :: .read op ::
          (front ++ .read toWord :: (middle ++ .read doWord :: back))) rest
        (.forDo keyword ⟨op, target, start⟩ (.ofKind toWord.kind) bound body)

section Openings

variable (expr : Phrase Expr) (broken : Breakage) (command : Phrase Command)

/-- What stands behind the name at the head of a command. -/
def BehindName (name : Token) : Phrase Command :=
  choice (· = .assign) (fun op => mapped (fun value => .assign ⟨op, name, value⟩) expr)
    (mapped (fun args => .call name (some (args.getD [])) none) (OptionalArguments expr))

def BehindBegin (opening : Token) : Phrase Command :=
  seq (Commands (Element broken command)) fun commands =>
    after (· = .endKw) fun _ => silent (.block opening commands)

def BehindIf (keyword : Token) : Phrase Command :=
  seq expr fun condition => after (· = .thenKw) fun _ => seq command fun branch =>
    choice (· = .elseKw) (fun _ => mapped (.ifElse keyword condition branch) command)
      (silent (.ifThen keyword condition branch))

def BehindWhile (keyword : Token) : Phrase Command :=
  seq expr fun condition =>
    after (· = .doKw) fun _ => mapped (.whileDo keyword condition) command

def BehindFor (keyword : Token) : Phrase Command :=
  after (· = .ident) fun target => after (· = .assign) fun op => seq expr fun start =>
    seq (one fun kind => kind = .toKw || kind = .downtoKw) fun direction =>
      seq expr fun bound => after (· = .doKw) fun _ =>
        mapped (.forDo keyword ⟨op, target, start⟩ (.ofKind direction.kind) bound) command

/-- Commands, told apart by their first token. -/
def CommandChoice : Phrase Command :=
  choice (· = .ident) (BehindName expr) <|
  choice (· = .beginKw) (BehindBegin broken command) <|
  choice (· = .ifKw) (BehindIf expr command) <|
  choice (· = .whileKw) (BehindWhile expr command) <|
  choice (· = .forKw) (BehindFor expr command) nothing

end Openings

section Openings

variable {expr : Phrase Expr} {broken : Breakage} {command : Phrase Command} {keyword : Token}
  {script : Script} {rest : List Token} {value : Command}

theorem command_of_behind_name (isName : keyword.kind = .ident)
    (read : BehindName expr keyword script rest value) :
    CommandOf expr broken command (.read keyword :: script) rest value := by
  rcases read with ⟨op, back, rfl, assigns, right, read, rfl⟩ | ⟨noAssign, args, read, rfl⟩
  · exact .assign isName (of_decide_eq_true assigns) read
  · rcases read with ⟨rfl, bare, rfl⟩ | ⟨args, rfl, given⟩
    · exact .bareCall isName noAssign bare
    · exact .call isName given

theorem command_of_behind_begin (opens : keyword.kind = .beginKw)
    (read : BehindBegin broken command keyword script rest value) :
    CommandOf expr broken command (.read keyword :: script) rest value := by
  obtain ⟨inner, _, commands, rfl, read, closing, _, rfl, closes, rfl, rfl⟩ := read
  exact .block opens read (of_decide_eq_true closes)

theorem command_of_behind_if (isIf : keyword.kind = .ifKw)
    (read : BehindIf expr command keyword script rest value) :
    CommandOf expr broken command (.read keyword :: script) rest value := by
  obtain ⟨front, _, condition, rfl, test, thenWord, _, rfl, isThen, middle, _, branch, rfl, yes,
    behind⟩ := read
  rcases behind with ⟨elseWord, back, rfl, isElse, otherwise, no, rfl⟩ | ⟨alone, rfl, rfl⟩
  · simp only [Script.tokens_append, Script.tokens_read, List.append_assoc, List.cons_append]
      at test
    exact .ifElse isIf test (of_decide_eq_true isThen) yes (of_decide_eq_true isElse) no
  · rw [List.append_nil] at test ⊢
    exact .ifThen isIf test (of_decide_eq_true isThen) yes alone

theorem command_of_behind_while (isWhile : keyword.kind = .whileKw)
    (read : BehindWhile expr command keyword script rest value) :
    CommandOf expr broken command (.read keyword :: script) rest value := by
  obtain ⟨front, _, condition, rfl, test, doWord, back, rfl, isDo, body, repeated, rfl⟩ := read
  exact .whileDo isWhile test (of_decide_eq_true isDo) repeated

theorem command_of_behind_for (isFor : keyword.kind = .forKw)
    (read : BehindFor expr command keyword script rest value) :
    CommandOf expr broken command (.read keyword :: script) rest value := by
  obtain ⟨target, _, rfl, isName, op, _, rfl, assigns, front, _, start, rfl, first, _, _, toWord,
    rfl, ⟨rfl, isTo⟩, middle, _, bound, rfl, last, doWord, back, rfl, isDo, body, repeated,
    rfl⟩ := read
  simp only [Script.tokens_append, Script.tokens_read, List.append_assoc, List.cons_append,
    List.nil_append] at first
  have isTo : toWord.kind = .toKw ∨ toWord.kind = .downtoKw := by simpa using isTo
  exact .forDo isFor (of_decide_eq_true isName) (of_decide_eq_true assigns) first isTo last
    (of_decide_eq_true isDo) repeated

theorem command_of_choice (read : CommandChoice expr broken command script rest value) :
    CommandOf expr broken command script rest value := by
  rcases read with ⟨name, _, rfl, isName, read⟩ | ⟨-, ⟨opening, _, rfl, opens, read⟩ |
    ⟨-, ⟨keyword, _, rfl, isIf, read⟩ | ⟨-, ⟨keyword, _, rfl, isWhile, read⟩ |
    ⟨-, ⟨keyword, _, rfl, isFor, read⟩ | ⟨-, impossible⟩⟩⟩⟩⟩
  · exact command_of_behind_name (of_decide_eq_true isName) read
  · exact command_of_behind_begin (of_decide_eq_true opens) read
  · exact command_of_behind_if (of_decide_eq_true isIf) read
  · exact command_of_behind_while (of_decide_eq_true isWhile) read
  · exact command_of_behind_for (of_decide_eq_true isFor) read
  · exact impossible.elim

theorem choice_of_command (read : CommandOf expr broken command script rest value) :
    CommandChoice expr broken command script rest value := by
  cases read with
  | assign isName assigns right =>
      exact .inl ⟨_, _, rfl, decide_eq_true isName,
        .inl ⟨_, _, rfl, decide_eq_true assigns, _, right, rfl⟩⟩
  | bareCall isName noAssign bare =>
      exact .inl ⟨_, _, rfl, decide_eq_true isName, .inr ⟨noAssign, _, .inl ⟨rfl, bare, rfl⟩, rfl⟩⟩
  | call isName given =>
      exact .inl ⟨_, _, rfl, decide_eq_true isName,
        .inr ⟨given.not_faces_assign, _, .inr ⟨_, rfl, given⟩, rfl⟩⟩
  | block opens inner closes =>
      exact .inr ⟨by simp [opens], .inl ⟨_, _, rfl, decide_eq_true opens, _, _, _, rfl, inner,
        _, _, rfl, decide_eq_true closes, rfl, rfl⟩⟩
  | ifThen isIf test isThen yes alone =>
      exact .inr ⟨by simp [isIf], .inr ⟨by simp [isIf], .inl ⟨_, _, rfl, decide_eq_true isIf,
        _, _, _, rfl, test, _, _, rfl, decide_eq_true isThen, _, [], _, (List.append_nil _).symm,
        yes, .inr ⟨alone, rfl, rfl⟩⟩⟩⟩
  | ifElse isIf test isThen yes isElse no =>
      refine .inr ⟨by simp [isIf], .inr ⟨by simp [isIf], .inl ⟨_, _, rfl, decide_eq_true isIf,
        _, _, _, rfl, ?_, _, _, rfl, decide_eq_true isThen, _, _, _, rfl, yes,
        .inl ⟨_, _, rfl, decide_eq_true isElse, _, no, rfl⟩⟩⟩⟩
      simpa only [Script.tokens_append, Script.tokens_read, List.append_assoc,
        List.cons_append] using test
  | whileDo isWhile test isDo repeated =>
      exact .inr ⟨by simp [isWhile], .inr ⟨by simp [isWhile], .inr ⟨by simp [isWhile],
        .inl ⟨_, _, rfl, decide_eq_true isWhile, _, _, _, rfl, test, _, _, rfl,
          decide_eq_true isDo, _, repeated, rfl⟩⟩⟩⟩
  | forDo isFor isName assigns begins isTo upTo isDo repeated =>
      refine .inr ⟨by simp [isFor], .inr ⟨by simp [isFor], .inr ⟨by simp [isFor],
        .inr ⟨by simp [isFor], .inl ⟨_, _, rfl, decide_eq_true isFor, _, _, rfl,
          decide_eq_true isName, _, _, rfl, decide_eq_true assigns, _, _, _, rfl, ?_, [_], _, _,
          rfl, ⟨rfl, by simpa using isTo⟩, _, _, _, rfl, upTo, _, _, rfl, decide_eq_true isDo, _,
          repeated, rfl⟩⟩⟩⟩⟩
      simpa only [Script.tokens_append, Script.tokens_read, List.append_assoc, List.cons_append,
        List.nil_append] using begins

end Openings

/-- Commands nested less than `n` deep. -/
def SingleCommand (broken : Breakage) : Nat → Phrase Command
  | 0 => nothing
  | n + 1 => CommandOf (Expression n) broken (SingleCommand broken n)

def Body (broken : Breakage) (n : Nat) : Phrase (List Command) :=
  Commands (Element broken (SingleCommand broken n))

end Phrase

abbrev Step.commandOrNone (n : Nat) : Step n (Option Command) :=
  Rule.commandOrNone (Rule.command n)

/-- Broken commands are passed over wherever a list of commands meets them. -/
def Tolerated (broken : Phrase.Breakage) : Prop :=
  ∀ (n : Nat) (s : ParseState) (bounded : s.unread.length < n) (script : Script)
    (rest : List Token), s.Ready → s.tokens = script.tokens ++ rest → broken script rest →
    (Step.commandOrNone n s bounded).value = none ∧
      s.Follows script (Step.commandOrNone n s bounded).state

theorem tolerated_unbroken : Tolerated Phrase.unbroken := by
  intro n s bounded script rest ready offered impossible
  exact impossible.elim

namespace Rule

open Phrase

variable {n : Nat}

theorem command_or_none_realizes {broken : Breakage} {phrase : Phrase Command}
    (tolerated : Tolerated broken) (realizes : Realizes (command n) phrase) :
    (commandOrNone (command n)).Realizes (Element broken phrase) := by
  have sound : (commandOrNone (command n)).Realizes phrase.kept := by
    refine (Step.Realizes.bind realizes fun read =>
      Step.silent_bind_realizes (Step.recover_realizes _) (.pure read)).congr ?_
    intro script rest value
    constructor
    · rintro ⟨front, back, read, rfl, offered, rfl, rfl⟩
      exact (List.append_nil front).symm ▸ offered
    · intro offered
      exact ⟨script, [], value, (List.append_nil script).symm, offered, rfl, rfl⟩
  constructor
  · exact sound.lasting
  · intro s bounded ready clean
    obtain ⟨script, read, follows⟩ := sound.sound s bounded ready clean
    exact ⟨script, .inl read, follows⟩
  · rintro s bounded script rest value ready offered (read | ⟨passed, rfl⟩)
    · exact sound.complete s bounded script rest value ready offered read
    · exact tolerated n s bounded script rest ready offered passed

theorem command_behind_realizes {rule : Rule n Command} {element : Phrase (Option Command)}
    (realizes : (commandOrNone rule).Realizes element) (semicolon : Token) :
    (commandBehind rule semicolon).Realizes (Behind element semicolon) := by
  unfold commandBehind
  exact Step.sees_bind_realizes (Step.warn_bind_realizes (.pure none)) realizes

theorem command_list_realizes {rule : Rule n Command} {element : Phrase (Option Command)}
    (realizes : (commandOrNone rule).Realizes element) :
    (commandList rule).Realizes (Commands element) := by
  have behind : ∀ semicolon, Realizes (ofStep (commandBehind rule semicolon))
      (Behind element semicolon) := by
    intro semicolon
    exact .of_step (command_behind_realizes realizes semicolon)
  unfold commandList
  refine Step.Realizes.congr (Step.sees_bind_realizes (.pure []) (.bind realizes fun first =>
    .map (Step.row_realizes rfl behind n (Nat.le_succ n))
      fun others => (first :: others.items).reduceOption)) ?_
  intro script rest value
  constructor
  · rintro (⟨ended, rfl, rfl⟩ | ⟨begun, front, back, first, rfl, head, others, ⟨-, tail⟩, rfl⟩)
    · exact .none ended
    · rw [Script.tokens_append, List.append_assoc] at begun
      exact .some begun head tail
  · intro read
    cases read with
    | none ended => exact .inl ⟨ended, rfl, rfl⟩
    | some begun head tail =>
        rw [← List.append_assoc, ← Script.tokens_append] at begun
        exact .inr ⟨begun, _, _, _, rfl, head, ⟨_, true⟩, ⟨rfl, tail⟩, rfl⟩

section Openings

variable {expr : Rule n Expr} {rule : Rule n Command} {phrase : Phrase Expr} {broken : Breakage}
  {body : Phrase Command}

theorem assignment_or_call_realizes (exprs : Realizes expr phrase) (name : Token) :
    Realizes (assignmentOrCall expr name) (BehindName phrase name) := by
  unfold assignmentOrCall
  exact take_bind_realizes rfl (fun op => .map exprs _) (.map (arguments_realizes exprs) _)

theorem block_realizes (each : (commandOrNone rule).Realizes (Element broken body))
    (opening : Token) : Realizes (block rule opening) (BehindBegin broken body opening) := by
  unfold block
  rw [trying_eq]
  exact .bind (.of_step (command_list_realizes each)) fun commands =>
    expect_bind_realizes (by decide) fun _ => .pure (Command.block opening commands)

theorem for_loop_realizes (exprs : Realizes expr phrase) (each : Realizes rule body)
    (keyword : Token) : Realizes (forLoop expr rule keyword) (BehindFor phrase body keyword) := by
  unfold forLoop
  exact expect_bind_realizes (by decide) fun target => expect_bind_realizes (by decide) fun op =>
    .bind exprs fun start => .bind (expect_any_realizes rfl (refuse_realizes _)) fun direction =>
      .bind exprs fun bound => expect_bind_realizes (by decide) fun _ => .map each _

theorem command_of_realizes (exprs : Realizes expr phrase) (each : Realizes rule body)
    (element : (commandOrNone rule).Realizes (Element broken body)) :
    Realizes (commandOf expr rule) (CommandOf phrase broken body) := by
  have choices : Realizes (commandOf expr rule) (CommandChoice phrase broken body) := by
    unfold commandOf
    rw [trying_eq]
    exact consuming_realizes rfl (assignment_or_call_realizes exprs) <|
      consuming_realizes rfl (block_realizes element) <|
      consuming_realizes rfl (fun keyword => .bind exprs fun condition =>
        expect_bind_realizes (by decide) fun _ => .bind each fun branch =>
          take_bind_realizes rfl (fun _ => .map each (Command.ifElse keyword condition branch))
            (.pure (Command.ifThen keyword condition branch))) <|
      consuming_realizes rfl (fun keyword => .bind exprs fun condition =>
        expect_bind_realizes (by decide) fun _ => .map each (Command.whileDo keyword condition)) <|
      consuming_realizes rfl (for_loop_realizes exprs each) (refuse_quoting_realizes _)
  exact choices.congr fun script rest value => ⟨command_of_choice, choice_of_command⟩

end Openings

theorem command_realizes {broken : Breakage} (tolerated : Tolerated broken) (n : Nat) :
    Realizes (command n) (SingleCommand broken n) := by
  induction n with
  | zero => exact .never
  | succ n induction =>
      have element := command_or_none_realizes tolerated induction
      exact command_of_realizes (expression_realizes n) induction element

end Rule

theorem Step.commands_realizes {broken : Phrase.Breakage} (tolerated : Tolerated broken) (n : Nat) :
    (Step.commands n).Realizes (Phrase.Body broken n) :=
  Rule.command_list_realizes
    (Rule.command_or_none_realizes tolerated (Rule.command_realizes tolerated n))

end TinyPascal
