import TinyPascal.Proofs.Grammar.Ebnf
import Mathlib.Tactic.Simproc.ExistsAndEq

/-!
# What each rule of the grammar says

The right-hand sides spelled out as equations between words, with the classes of
kinds that the parser asks about in place of lists of kinds.
-/

namespace TinyPascal.Grammar

set_option autoImplicit false

open Ebnf

variable {sense : Nonterminal → List Kind → Prop} {text : List Kind} {first second : Ebnf}

def Opened (kinds : Kind → Bool) (inner : List Kind → Prop) : List Kind → Prop := fun text =>
  ∃ opening behind, text = opening :: behind ∧ kinds opening = true ∧ inner behind

theorem means_one_of {kinds : List Kind} :
    Means sense (.oneOf kinds) text ↔ ∃ kind ∈ kinds, text = [kind] := Iff.rfl

theorem means_word {kind : Kind} : Means sense (word kind) text ↔ text = [kind] := by
  simp [word, means_one_of]

theorem means_ref {name : Nonterminal} : Means sense (.ref name) text ↔ sense name text := Iff.rfl

theorem means_seq : Means sense (first ++ second) text ↔
    ∃ front back, text = front ++ back ∧ Means sense first front ∧ Means sense second back :=
  Iff.rfl

theorem means_alt : Means sense (first ||| second) text ↔
    Means sense first text ∨ Means sense second text := Iff.rfl

theorem means_opt : Means sense (.opt first) text ↔ text = [] ∨ Means sense first text := Iff.rfl

theorem means_many : Means sense (.many first) text ↔ Repeated (Means sense first) text := Iff.rfl

theorem repeated_congr {one other : List Kind → Prop} (same : ∀ text, one text ↔ other text) :
    Repeated one text ↔ Repeated other text := by
  rw [funext fun text => propext (same text)]

theorem means_one_of_seq {kinds : List Kind} {asked : Kind → Bool}
    (same : ∀ kind, kind ∈ kinds ↔ asked kind = true) :
    Means sense (.oneOf kinds ++ second) text ↔ Opened asked (Means sense second) text := by
  simp only [means_seq, means_one_of, same]
  constructor
  · rintro ⟨_, back, rfl, ⟨kind, member, rfl⟩, meant⟩
    exact ⟨kind, back, rfl, member, meant⟩
  · rintro ⟨kind, back, rfl, member, meant⟩
    exact ⟨[kind], back, rfl, ⟨kind, member, rfl⟩, meant⟩

theorem means_word_seq {kind : Kind} :
    Means sense (word kind ++ second) text ↔ Opened (· = kind) (Means sense second) text :=
  means_one_of_seq fun other => by simp

theorem mem_literals (kind : Kind) :
    kind ∈ [Kind.intLit, .realLit, .trueLit, .falseLit] ↔ kind.isLiteral = true := by
  cases kind <;> decide

theorem mem_types (kind : Kind) :
    kind ∈ [Kind.integerKw, .realKw, .booleanKw] ↔ kind.isTypeName = true := by
  cases kind <;> decide

theorem mem_relations (kind : Kind) :
    kind ∈ [Kind.equal, .notEqual, .less, .lessEqual, .greater, .greaterEqual] ↔
      kind.isRelational = true := by
  cases kind <;> decide

theorem mem_signs (kind : Kind) : kind ∈ [Kind.plus, .minus] ↔ kind.isSign = true := by
  cases kind <;> decide

theorem mem_additive (kind : Kind) :
    kind ∈ [Kind.plus, .minus, .orOp] ↔ kind.isAdditive = true := by
  cases kind <;> decide

theorem mem_multiplicative (kind : Kind) :
    kind ∈ [Kind.times, .divide, .andOp] ↔ kind.isMultiplicative = true := by
  cases kind <;> decide

theorem means_factor : Means sense (rule .factor) text ↔
    (∃ kind, kind.isLiteral = true ∧ text = [kind]) ∨
    (∃ inner, text = .notOp :: inner ∧ sense .factor inner) ∨
    (∃ inner, text = .lparen :: (inner ++ [.rparen]) ∧ sense .expr inner) ∨
    (∃ args, text = .ident :: args ∧ (args = [] ∨ sense .arguments args)) := by
  simp only [rule, literal, means_alt, means_seq, means_word, means_one_of, mem_literals, means_ref,
    means_opt, existsAndEq, List.cons_append, List.nil_append, true_and, and_true, or_assoc]

theorem means_term : Means sense (rule .term) text ↔
    ∃ first others, text = first ++ others ∧ sense .factor first ∧
      Repeated (Opened Kind.isMultiplicative (sense .factor)) others := by
  simp only [rule, means_seq, means_ref, means_many]
  simp only [repeated_congr fun text => means_one_of_seq mem_multiplicative]
  rfl

theorem means_simple_expr : Means sense (rule .simpleExpr) text ↔
    ∃ sign first others, text = sign ++ (first ++ others) ∧
      (sign = [] ∨ ∃ kind, kind.isSign = true ∧ sign = [kind]) ∧ sense .term first ∧
      Repeated (Opened Kind.isAdditive (sense .term)) others := by
  simp only [rule, means_seq, means_ref, means_opt, means_many, means_one_of, mem_signs,
    repeated_congr fun text => means_one_of_seq mem_additive]
  constructor
  · rintro ⟨_, others, rfl, ⟨sign, first, rfl, signed, head⟩, tail⟩
    exact ⟨sign, first, others, List.append_assoc sign first others, signed, head, tail⟩
  · rintro ⟨sign, first, others, rfl, signed, head, tail⟩
    exact ⟨sign ++ first, others, (List.append_assoc sign first others).symm,
      ⟨sign, first, rfl, signed, head⟩, tail⟩

theorem means_expr : Means sense (rule .expr) text ↔
    ∃ left tail, text = left ++ tail ∧ sense .simpleExpr left ∧
      (tail = [] ∨ Opened Kind.isRelational (sense .simpleExpr) tail) := by
  simp only [rule, relation, @means_seq _ _ (.ref _), means_ref, means_opt,
    means_one_of_seq mem_relations]
  rfl

theorem means_arguments : Means sense (rule .arguments) text ↔
    ∃ inner, text = .lparen :: (inner ++ [.rparen]) ∧
      (inner = [] ∨ ∃ first others, inner = first ++ others ∧ sense .expr first ∧
        Repeated (Opened (· = .comma) (sense .expr)) others) := by
  simp only [rule, means_seq, means_ref, means_opt, means_many, means_word,
    repeated_congr fun text => means_word_seq, existsAndEq, List.cons_append, List.nil_append,
    true_and, and_true]
  rfl

theorem means_commands : Means sense (rule .commands) text ↔
    text = [] ∨ ∃ first others last, text = first ++ (others ++ last) ∧ sense .command first ∧
      Repeated (Opened (· = .semicolon) (sense .command)) others ∧
      (last = [] ∨ last = [.semicolon]) := by
  simp only [rule, means_seq, means_ref, means_opt, means_many, means_word,
    repeated_congr fun text => means_word_seq, existsAndEq, List.append_assoc, true_and]
  apply or_congr Iff.rfl
  constructor
  · rintro ⟨last, first, others, rfl, ⟨head, tail⟩, closed⟩
    exact ⟨first, others, last, rfl, head, tail, closed⟩
  · rintro ⟨first, others, last, rfl, head, tail, closed⟩
    exact ⟨last, first, others, rfl, ⟨head, tail⟩, closed⟩

theorem means_command : Means sense (rule .command) text ↔
    (∃ value, text = .ident :: .assign :: value ∧ sense .expr value) ∨
    (∃ args, text = .ident :: args ∧ (args = [] ∨ sense .arguments args)) ∨
    (∃ inner, text = .beginKw :: (inner ++ [.endKw]) ∧ sense .commands inner) ∨
    (∃ condition branch tail, text = .ifKw :: (condition ++ .thenKw :: (branch ++ tail)) ∧
      sense .expr condition ∧ sense .command branch ∧
      (tail = [] ∨ ∃ otherwise, tail = .elseKw :: otherwise ∧ sense .command otherwise)) ∨
    (∃ condition body, text = .whileKw :: (condition ++ .doKw :: body) ∧
      sense .expr condition ∧ sense .command body) ∨
    (∃ start direction bound body,
      text = .forKw :: .ident :: .assign :: (start ++ direction :: (bound ++ .doKw :: body)) ∧
      sense .expr start ∧ (direction = .toKw ∨ direction = .downtoKw) ∧ sense .expr bound ∧
      sense .command body) := by
  simp only [rule, means_alt, means_seq, means_word, means_one_of, means_ref, means_opt, existsAndEq,
    List.cons_append, List.nil_append, List.append_assoc, true_and, and_true, or_assoc]
  refine or_congr Iff.rfl (or_congr Iff.rfl (or_congr Iff.rfl (or_congr ?_ (or_congr ?_ ?_))))
  · constructor
    · rintro ⟨tail, branch, condition, same, ⟨test, yes⟩, no⟩
      exact ⟨condition, branch, tail, same, test, yes, no⟩
    · rintro ⟨condition, branch, tail, same, test, yes, no⟩
      exact ⟨tail, branch, condition, same, ⟨test, yes⟩, no⟩
  · exact exists_comm
  · constructor
    · rintro ⟨body, bound, direction, start, same, ⟨⟨begins, member⟩, ends⟩, repeated⟩
      exact ⟨start, direction, bound, body, same, begins, by simpa using member, ends, repeated⟩
    · rintro ⟨start, direction, bound, body, same, begins, member, ends, repeated⟩
      exact ⟨body, bound, direction, start, same, ⟨⟨begins, by simpa using member⟩, ends⟩, repeated⟩

theorem means_ident_list : Means sense (rule .identList) text ↔
    ∃ others, text = .ident :: others ∧ Repeated (Opened (· = .comma) (· = [.ident])) others := by
  simp only [rule, means_seq, means_many, means_word, repeated_congr fun text => means_word_seq,
    existsAndEq, List.cons_append, List.nil_append, true_and]
  have same : Means sense (word .ident) = (· = [.ident]) :=
    funext fun text => propext means_word
  rw [same]

theorem means_group : Means sense group text ↔
    ∃ names type, text = names ++ [.colon, type] ∧ sense .identList names ∧
      type.isTypeName = true := by
  simp only [group, typeName, means_seq, means_ref, means_word, means_one_of, mem_types, existsAndEq,
    List.append_assoc, List.cons_append, List.nil_append, true_and, and_true]
  exact exists_comm

theorem means_params : Means sense (rule .params) text ↔
    ∃ first others, text = first ++ others ∧ Means sense group first ∧
      Repeated (Opened (· = .semicolon) (Means sense group)) others := by
  simp only [rule, @means_seq _ _ group, means_many, repeated_congr fun text => means_word_seq]

def ClosedGroup (sense : Nonterminal → List Kind → Prop) (text : List Kind) : Prop :=
  ∃ inner, text = inner ++ [.semicolon] ∧ Means sense group inner

theorem means_closed_group :
    Means sense (group ++ word .semicolon) text ↔ ClosedGroup sense text := by
  simp only [means_seq, means_word, existsAndEq, and_true]
  rfl

theorem means_var_decl : Means sense (rule .varDecl) text ↔
    ∃ first others, text = .varKw :: (first ++ others) ∧ ClosedGroup sense first ∧
      Repeated (ClosedGroup sense) others := by
  simp only [rule, means_seq, means_many, means_word, repeated_congr fun text => means_closed_group,
    existsAndEq, List.append_assoc, List.cons_append, List.nil_append, true_and, and_true]
  constructor
  · rintro ⟨others, inner, rfl, head, tail⟩
    exact ⟨inner ++ [.semicolon], others, by simp, ⟨inner, rfl, head⟩, tail⟩
  · rintro ⟨_, others, rfl, ⟨inner, rfl, head⟩, tail⟩
    exact ⟨others, inner, by simp, head, tail⟩

theorem means_block : Means sense block text ↔
    ∃ vars procedures commands,
      text = vars ++ (procedures ++ .beginKw :: (commands ++ [.endKw])) ∧
      (vars = [] ∨ sense .varDecl vars) ∧ Repeated (sense .procedure) procedures ∧
      sense .commands commands := by
  simp only [block, means_seq, means_many, means_word, means_opt, means_ref, existsAndEq,
    List.append_assoc, List.cons_append, List.nil_append, true_and, and_true]
  constructor
  · rintro ⟨commands, vars, procedures, same, ⟨declared, defined⟩, done⟩
    exact ⟨vars, procedures, commands, same, declared, defined, done⟩
  · rintro ⟨vars, procedures, commands, same, declared, defined, done⟩
    exact ⟨commands, vars, procedures, same, ⟨declared, defined⟩, done⟩

theorem means_procedure : Means sense (rule .procedure) text ↔
    ∃ params inner closing,
      text = .procedureKw :: .ident :: (params ++ .semicolon :: (inner ++ closing)) ∧
      (params = [] ∨ ∃ given, params = .lparen :: (given ++ [.rparen]) ∧
        (given = [] ∨ sense .params given)) ∧
      Means sense block inner ∧ (closing = [] ∨ closing = [.semicolon]) := by
  simp only [rule, means_seq, means_word, means_opt, means_ref, existsAndEq,
    List.append_assoc, List.cons_append, List.nil_append, true_and, and_true]
  constructor
  · rintro ⟨closing, inner, params, same, ⟨given, done⟩, closed⟩
    exact ⟨params, inner, closing, same, given, done, closed⟩
  · rintro ⟨params, inner, closing, same, given, done, closed⟩
    exact ⟨closing, inner, params, same, ⟨given, done⟩, closed⟩

theorem means_program : Means sense (rule .program) text ↔
    ∃ inner, text = .programKw :: .ident :: .semicolon :: (inner ++ [.dot]) ∧
      Means sense block inner := by
  simp only [rule, means_seq, means_word, existsAndEq, List.cons_append, List.nil_append, true_and,
    and_true]

end TinyPascal.Grammar
