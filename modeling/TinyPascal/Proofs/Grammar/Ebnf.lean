import TinyPascal.Token.Kind

/-!
# The grammar of the language

The grammar is a table of extended rules over token kinds. It is the whole
language that is read without an error, so it also has what is only warned about:
empty parentheses, a semicolon before `end`, and a procedure without the
semicolon behind it.
-/

namespace TinyPascal.Grammar

set_option autoImplicit false

inductive Nonterminal where
  | program | procedure | varDecl | params | identList
  | commands | command | arguments
  | expr | simpleExpr | term | factor
deriving DecidableEq, Repr

inductive Ebnf where
  | oneOf (kinds : List Kind)
  | ref (name : Nonterminal)
  | seq (first second : Ebnf)
  | alt (first second : Ebnf)
  | opt (body : Ebnf)
  | many (body : Ebnf)

instance : Append Ebnf := ⟨.seq⟩

instance : OrOp Ebnf := ⟨.alt⟩

namespace Ebnf

def word (kind : Kind) : Ebnf := oneOf [kind]

def typeName : Ebnf := oneOf [.integerKw, .realKw, .booleanKw]

def relation : Ebnf := oneOf [.equal, .notEqual, .less, .lessEqual, .greater, .greaterEqual]

def literal : Ebnf := oneOf [.intLit, .realLit, .trueLit, .falseLit]

def group : Ebnf := ref .identList ++ word .colon ++ typeName

/-- What a program and a procedure have in common. -/
def block : Ebnf :=
  opt (ref .varDecl) ++ many (ref .procedure) ++ word .beginKw ++ ref .commands ++ word .endKw

end Ebnf

open Ebnf

def rule : Nonterminal → Ebnf
  | .program => word .programKw ++ word .ident ++ word .semicolon ++ block ++ word .dot
  | .procedure =>
      word .procedureKw ++ word .ident ++
        opt (word .lparen ++ opt (ref .params) ++ word .rparen) ++ word .semicolon ++
        block ++ opt (word .semicolon)
  | .varDecl =>
      word .varKw ++ group ++ word .semicolon ++ many (group ++ word .semicolon)
  | .params => group ++ many (word .semicolon ++ group)
  | .identList => word .ident ++ many (word .comma ++ word .ident)
  | .commands =>
      opt (ref .command ++ many (word .semicolon ++ ref .command) ++ opt (word .semicolon))
  | .command =>
      word .ident ++ word .assign ++ ref .expr |||
      word .ident ++ opt (ref .arguments) |||
      word .beginKw ++ ref .commands ++ word .endKw |||
      word .ifKw ++ ref .expr ++ word .thenKw ++ ref .command ++
        opt (word .elseKw ++ ref .command) |||
      word .whileKw ++ ref .expr ++ word .doKw ++ ref .command |||
      word .forKw ++ word .ident ++ word .assign ++ ref .expr ++ oneOf [.toKw, .downtoKw] ++
        ref .expr ++ word .doKw ++ ref .command
  | .arguments =>
      word .lparen ++ opt (ref .expr ++ many (word .comma ++ ref .expr)) ++ word .rparen
  | .expr => ref .simpleExpr ++ opt (relation ++ ref .simpleExpr)
  | .simpleExpr =>
      opt (oneOf [.plus, .minus]) ++ ref .term ++
        many (oneOf [.plus, .minus, .orOp] ++ ref .term)
  | .term => ref .factor ++ many (oneOf [.times, .divide, .andOp] ++ ref .factor)
  | .factor =>
      literal |||
      word .notOp ++ ref .factor |||
      word .lparen ++ ref .expr ++ word .rparen |||
      word .ident ++ opt (ref .arguments)

/-- The words that an extended rule derives. -/
inductive Derives : Ebnf → List Kind → Prop where
  | oneOf {kinds : List Kind} {kind : Kind} (member : kind ∈ kinds) :
      Derives (.oneOf kinds) [kind]
  | ref {name : Nonterminal} {word : List Kind} (body : Derives (rule name) word) :
      Derives (.ref name) word
  | seq {first second : Ebnf} {front back : List Kind} (head : Derives first front)
      (tail : Derives second back) : Derives (.seq first second) (front ++ back)
  | left {first second : Ebnf} {word : List Kind} (chosen : Derives first word) :
      Derives (.alt first second) word
  | right {first second : Ebnf} {word : List Kind} (chosen : Derives second word) :
      Derives (.alt first second) word
  | absent {body : Ebnf} : Derives (.opt body) []
  | present {body : Ebnf} {word : List Kind} (given : Derives body word) :
      Derives (.opt body) word
  | stop {body : Ebnf} : Derives (.many body) []
  | more {body : Ebnf} {front back : List Kind} (head : Derives body front)
      (tail : Derives (.many body) back) : Derives (.many body) (front ++ back)

/-- The kinds that stand in a right-hand side itself. -/
def Ebnf.mentions : Ebnf → List Kind
  | .oneOf kinds => kinds
  | .ref _ => []
  | .seq first second | .alt first second => first.mentions ++ second.mentions
  | .opt body | .many body => body.mentions

/-- Kinds of tokens that have a text of their own and a part in the grammar. -/
def isReal : Kind → Bool
  | .comment | .unknown | .eof => false
  | _ => true

theorem is_real_of_rule (name : Nonterminal) : ∀ kind ∈ (rule name).mentions, isReal kind = true := by
  cases name <;> decide

theorem Derives.is_real {body : Ebnf} {text : List Kind} (derived : Derives body text)
    (real : ∀ kind ∈ body.mentions, isReal kind = true) : ∀ kind ∈ text, isReal kind = true := by
  induction derived with
  | @oneOf kinds kind member =>
      intro other found
      rw [List.mem_singleton.mp found]
      exact real kind member
  | ref _ induction => exact induction (is_real_of_rule _)
  | seq _ _ head tail =>
      simp only [Ebnf.mentions, List.forall_mem_append] at real
      exact List.forall_mem_append.mpr ⟨head real.1, tail real.2⟩
  | left _ induction =>
      simp only [Ebnf.mentions, List.forall_mem_append] at real
      exact induction real.1
  | right _ induction =>
      simp only [Ebnf.mentions, List.forall_mem_append] at real
      exact induction real.2
  | absent | stop =>
      intro kind member
      cases member
  | present _ induction => exact induction real
  | more _ _ head tail => exact List.forall_mem_append.mpr ⟨head real, tail real⟩

/-- Words put together from words that make `sense`. -/
inductive Repeated (sense : List Kind → Prop) : List Kind → Prop where
  | stop : Repeated sense []
  | more {front back : List Kind} (head : sense front) (tail : Repeated sense back) :
      Repeated sense (front ++ back)

/-- What a right-hand side says, if `sense` is what the names in it say. -/
def Means (sense : Nonterminal → List Kind → Prop) : Ebnf → List Kind → Prop
  | .oneOf kinds, word => ∃ kind ∈ kinds, word = [kind]
  | .ref name, word => sense name word
  | .seq first second, word =>
      ∃ front back, word = front ++ back ∧ Means sense first front ∧ Means sense second back
  | .alt first second, word => Means sense first word ∨ Means sense second word
  | .opt body, word => word = [] ∨ Means sense body word
  | .many body, word => Repeated (Means sense body) word

theorem Derives.means {sense : Nonterminal → List Kind → Prop}
    (closed : ∀ name word, Means sense (rule name) word → sense name word)
    {body : Ebnf} {word : List Kind} (derived : Derives body word) : Means sense body word := by
  induction derived with
  | oneOf member => exact ⟨_, member, rfl⟩
  | ref _ induction => exact closed _ _ induction
  | seq _ _ head tail => exact ⟨_, _, rfl, head, tail⟩
  | left _ induction => exact .inl induction
  | right _ induction => exact .inr induction
  | absent => exact .inl rfl
  | present _ induction => exact .inr induction
  | stop => exact .stop
  | more _ _ head tail => exact .more head tail

theorem derives_of_means {body : Ebnf} {word : List Kind}
    (meant : Means (fun name => Derives (.ref name)) body word) : Derives body word := by
  induction body generalizing word with
  | oneOf kinds =>
      obtain ⟨kind, member, rfl⟩ := meant
      exact .oneOf member
  | ref name => exact meant
  | seq first second head tail =>
      obtain ⟨front, back, rfl, meantFront, meantBack⟩ := meant
      exact .seq (head meantFront) (tail meantBack)
  | alt first second left right =>
      rcases meant with chosen | chosen
      · exact .left (left chosen)
      · exact .right (right chosen)
  | opt body given =>
      rcases meant with rfl | chosen
      · exact .absent
      · exact .present (given chosen)
  | many body each =>
      induction meant with
      | stop => exact .stop
      | more head _ tail => exact .more (each head) tail

/-- To derive a name it is enough to say what its rule says. -/
theorem derives_ref {name : Nonterminal} {word : List Kind}
    (meant : Means (fun name => Derives (.ref name)) (rule name) word) :
    Derives (.ref name) word :=
  .ref (derives_of_means meant)

end TinyPascal.Grammar
