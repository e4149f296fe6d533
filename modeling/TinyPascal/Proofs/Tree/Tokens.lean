import TinyPascal.Tree.Basic

/-!
# The tokens that a tree holds

A tree is listed as the tokens stored in it, in the order in which a text has them: a target
before its `:=`, an operator between its operands, names before their type. Three tokens of a
program may be stand-ins for what the text lacks: its keyword, its name and the `begin` of its
body. A stand-in has no text of its own.
-/

namespace TinyPascal

set_option autoImplicit false

/-- A stand-in is told by its empty text. -/
def Token.hasText (token : Token) : Bool := !token.lexeme.isEmpty

/-- The token, unless it is a stand-in. -/
def Token.present (token : Token) : List Token := [token].filter hasText

theorem Token.present_sublist (token : Token) : token.present.Sublist [token] :=
  List.filter_sublist

namespace Expr

mutual

def tokens : Expr → List Token
  | binary op left right _ => left.tokens ++ op :: right.tokens
  | unary op operand => op :: operand.tokens
  | name token _ => [token]
  | call token args _ => token :: tokensAll args
  | literal token => [token]

def tokensAll : List Expr → List Token
  | [] => []
  | first :: others => first.tokens ++ tokensAll others

end

theorem tokens_all_eq (args : List Expr) : tokensAll args = args.flatMap tokens := by
  induction args with
  | nil => rfl
  | cons first others induction => rw [tokensAll, induction, List.flatMap_cons]

end Expr

def Assignment.tokens (assignment : Assignment) : List Token :=
  assignment.target :: assignment.op :: assignment.value.tokens

namespace Command

mutual

def tokens : Command → List Token
  | assign assignment => assignment.tokens
  | call name args _ => name :: Expr.tokensAll (args.getD [])
  | ifThen keyword condition branch => keyword :: (condition.tokens ++ branch.tokens)
  | ifElse keyword condition branch otherwise =>
      keyword :: (condition.tokens ++ (branch.tokens ++ otherwise.tokens))
  | whileDo keyword condition body => keyword :: (condition.tokens ++ body.tokens)
  | forDo keyword start _ bound body =>
      keyword :: (start.tokens ++ (bound.tokens ++ body.tokens))
  | block opening commands => opening :: tokensAll commands

def tokensAll : List Command → List Token
  | [] => []
  | first :: others => first.tokens ++ tokensAll others

end

theorem tokens_all_eq (commands : List Command) : tokensAll commands = commands.flatMap tokens := by
  induction commands with
  | nil => rfl
  | cons first others induction => rw [tokensAll, induction, List.flatMap_cons]

end Command

def Declaration.tokens (declaration : Declaration) : List Token :=
  declaration.names ++ [declaration.type]

namespace Variables

def tokens (vars : Variables) : List Token :=
  vars.keyword :: vars.declarations.flatMap Declaration.tokens

def tokens? (vars : Option Variables) : List Token := (vars.map tokens).getD []

theorem mem_tokens_of_entry {vars : Option Variables} {name type : Token}
    (declared : (name, type) ∈ (vars.map entries).getD []) : name ∈ tokens? vars := by
  cases vars with
  | none => cases declared
  | some vars =>
      rcases List.mem_flatMap.mp declared with ⟨declaration, member, listed⟩
      rcases List.mem_map.mp listed with ⟨token, isName, same⟩
      cases same
      apply List.mem_cons_of_mem
      exact List.mem_flatMap.mpr ⟨declaration, member, List.mem_append_left _ isName⟩

end Variables

namespace Program

variable (view : Token → List Token)

mutual

/-- The tokens of a program, with `view` of those that may be stand-ins. -/
def tokensBy : Program → List Token
  | ⟨keyword, name, params, locals, procedures, opening, body⟩ =>
      view keyword ++ (view name ++ (Variables.tokens? params ++ (Variables.tokens? locals ++
        (tokensByAll procedures ++ (view opening ++ Command.tokensAll body)))))

def tokensByAll : List Program → List Token
  | [] => []
  | first :: others => first.tokensBy ++ tokensByAll others

end

theorem tokens_by_all_eq (programs : List Program) :
    tokensByAll view programs = programs.flatMap (tokensBy view) := by
  induction programs with
  | nil => rfl
  | cons first others induction => rw [tokensByAll, induction, List.flatMap_cons]

mutual

/-- Leaving tokens out everywhere leaves no more than leaving them out where `view` does. -/
theorem filter_tokens_by (keep : Token → Bool) : (program : Program) →
    ((program.tokensBy view).filter keep).Sublist
      (program.tokensBy fun token => (view token).filter keep)
  | ⟨keyword, name, params, locals, procedures, opening, body⟩ => by
      simp only [tokensBy, List.filter_append]
      apply List.Sublist.append_left
      apply List.Sublist.append_left
      apply List.filter_sublist.append
      apply List.filter_sublist.append
      apply (filter_tokens_by_all keep procedures).append
      exact List.filter_sublist.append_left _

theorem filter_tokens_by_all (keep : Token → Bool) : (programs : List Program) →
    ((tokensByAll view programs).filter keep).Sublist
      (tokensByAll (fun token => (view token).filter keep) programs)
  | [] => .slnil
  | first :: others => by
      simp only [tokensByAll, List.filter_append]
      exact (filter_tokens_by keep first).append (filter_tokens_by_all keep others)

end

mutual

theorem tokens_by_sublist {other : Token → List Token}
    (more : ∀ token, (view token).Sublist (other token)) : (program : Program) →
    (program.tokensBy view).Sublist (program.tokensBy other)
  | ⟨keyword, name, params, locals, procedures, opening, body⟩ => by
      rw [tokensBy, tokensBy]
      apply (more keyword).append
      apply (more name).append
      apply List.Sublist.append_left
      apply List.Sublist.append_left
      apply (tokens_by_all_sublist more procedures).append
      exact (more opening).append_right _

theorem tokens_by_all_sublist {other : Token → List Token}
    (more : ∀ token, (view token).Sublist (other token)) : (programs : List Program) →
    (tokensByAll view programs).Sublist (tokensByAll other programs)
  | [] => .slnil
  | first :: others => by
      rw [tokensByAll, tokensByAll]
      exact (tokens_by_sublist more first).append (tokens_by_all_sublist more others)

end

def tokens (program : Program) : List Token := program.tokensBy fun token => [token]

/-- The tokens stored in a program without the stand-ins. -/
def realTokens (program : Program) : List Token := program.tokens.filter Token.hasText

theorem real_tokens_sublist (program : Program) :
    program.realTokens.Sublist (program.tokensBy Token.present) :=
  program.filter_tokens_by _ Token.hasText

/-- A token with a text is no stand-in, wherever it is listed. -/
theorem mem_real_tokens {program : Program} {token : Token}
    (listed : token ∈ program.tokensBy Token.present) (written : token.lexeme ≠ "") :
    token ∈ program.realTokens := by
  have hasText : token.hasText = true := by simpa [Token.hasText] using written
  have stored := program.tokens_by_sublist _ fun token => token.present_sublist
  exact List.mem_filter.mpr ⟨stored.subset listed, hasText⟩

end Program

end TinyPascal
