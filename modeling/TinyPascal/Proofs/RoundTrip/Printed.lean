import TinyPascal.Proofs.Parallel.Layout
import TinyPascal.Proofs.Spelling.Fixed

/-!
# Printed scripts

A text prints a script if it spells the tokens of the script, in front of
anything that does not continue the last of them. The only remarks of such a
script are about empty parentheses, and they are counted.
-/

namespace TinyPascal

set_option autoImplicit false

open Lexeme

/-- What is said about empty parentheses. -/
def emptyParentheses : Severity × Problem := (.warning, .syntactic .emptyArguments)

structure Printed (text : List Char) (count : Nat) (script : Script) : Prop where
  spells : ∀ more words, Before isBreak more → Spells more words →
    Spells (text ++ more) (script.tokens.map Token.bare ++ words)
  remarks : script.remarks.map Diagnostic.gist = List.replicate count emptyParentheses

/-- A text that does not continue a lexeme in front of it. -/
def Soft (text : List Char) : Prop := ∀ more, Before isBreak more → Before isBreak (text ++ more)

theorem soft_nil : Soft [] := fun _ before => before

theorem soft_cons {c : Char} {text : List Char} (stop : isBreak c = true) : Soft (c :: text) := by
  intro more _
  exact before_cons stop

namespace Printed

variable {text behind : List Char} {count more : Nat} {script others : Script} {token : Token}

theorem nil : Printed [] 0 [] := ⟨fun _ _ _ spells => spells, rfl⟩

theorem word (written : token.IsWritten) (soft : Soft text) (tail : Printed text count script) :
    Printed (token.lexeme.toList ++ text) count (.read token :: script) := by
  refine ⟨?_, tail.remarks⟩
  intro more words before spells
  have whole := Spells.cons (written.cuts (soft more before)) (tail.spells more words before spells)
  rw [token.of_text_to_list] at whole
  simpa using whole

theorem keyword {kind : Kind} {fixed : String} (written : token.IsWritten)
    (isKind : token.kind = kind) (spelled : kind.spelling? = some fixed) (soft : Soft text)
    (tail : Printed text count script) :
    Printed (fixed.toList ++ text) count (.read token :: script) := by
  have whole := word written soft tail
  rwa [written.eq_spelling isKind spelled] at whole

/-- A symbol that nothing continues. -/
theorem lone {kind : Kind} {c : Char} (written : token.IsWritten) (isKind : token.kind = kind)
    (spelled : kind.spelling? = some (String.singleton c)) (lone : isLone c = true)
    (tail : Printed text count script) : Printed (c :: text) count (.read token :: script) := by
  refine ⟨?_, tail.remarks⟩
  intro more words before spells
  have lexeme : token.lexeme.toList = [c] := by
    rw [written.eq_spelling isKind spelled, String.toList_singleton]
  have written : Written token.kind [c] := lexeme ▸ written
  have whole := Spells.cons (written.cuts_lone lone _) (tail.spells more words before spells)
  rw [← lexeme, token.of_text_to_list] at whole
  simpa [lexeme] using whole

theorem blank (tail : Printed text count script) : Printed (' ' :: text) count script := by
  refine ⟨?_, tail.remarks⟩
  intro more words before spells
  exact (tail.spells more words before spells).blank

theorem remark (tail : Printed text count script) (token : Token) :
    Printed text (count + 1) (Script.warning token .emptyArguments :: script) := by
  refine ⟨tail.spells, ?_⟩
  rw [Script.remarks_warning, List.map_cons, tail.remarks, List.replicate_succ]
  rfl

theorem append (head : Printed text count script) (soft : Soft behind)
    (tail : Printed behind more others) :
    Printed (text ++ behind) (count + more) (script ++ others) := by
  constructor
  · intro rest words before spells
    have whole := head.spells _ _ (soft rest before) (tail.spells rest words before spells)
    simpa using whole
  · rw [Script.remarks_append, List.map_append, head.remarks, tail.remarks,
      List.replicate_append_replicate]

theorem spaced (written : token.IsWritten) (tail : Printed text count script) :
    Printed (token.lexeme.toList ++ ' ' :: text) count (.read token :: script) :=
  word written (soft_cons (by decide)) tail.blank

theorem joined (head : Printed text count script) (written : token.IsWritten)
    (tail : Printed behind more others) :
    Printed (text ++ ' ' :: (token.lexeme.toList ++ ' ' :: behind)) (count + more)
      (script ++ .read token :: others) :=
  head.append (soft_cons (by decide)) (spaced written tail).blank

end Printed

/-- A text that spells a script in front of anything that is printed. -/
def Leads (text : List Char) (count : Nat) (script : Script) : Prop :=
  ∀ (behind : List Char) (more : Nat) (others : Script), Printed behind more others →
    Printed (text ++ behind) (count + more) (script ++ others)

section Leads

variable {text behind : List Char} {count more : Nat} {script others : Script}

theorem leads_nil : Leads [] 0 [] := by
  intro behind more others tail
  rwa [List.nil_append, List.nil_append, Nat.zero_add]

/-- A blank keeps what follows apart. -/
theorem Printed.leads (printed : Printed text count script) : Leads (text ++ [' ']) count script := by
  intro behind more others tail
  have whole := printed.append (soft_cons (by decide)) tail.blank
  rwa [List.append_assoc]

theorem Leads.append (head : Leads text count script) (tail : Leads behind more others) :
    Leads (text ++ behind) (count + more) (script ++ others) := by
  intro last least final printed
  have whole := head _ _ _ (tail _ _ _ printed)
  rwa [List.append_assoc, List.append_assoc, Nat.add_assoc]

end Leads

section Separated

variable {α : Type}

/-- Items behind the first one, each behind a separator and a blank. -/
def behindChars (separator : Char) (chars : α → List Char) (items : List α) : List Char :=
  items.flatMap fun item => separator :: ' ' :: chars item

def total (count : α → Nat) : List α → Nat
  | [] => 0
  | first :: others => count first + total count others

theorem total_zero (items : List α) : total (fun _ => 0) items = 0 := by
  induction items with
  | nil => rfl
  | cons first others induction => rw [total, induction]

theorem soft_behind_chars {separator : Char} (stop : isBreak separator = true)
    (chars : α → List Char) (items : List α) : Soft (behindChars separator chars items) := by
  cases items with
  | nil => exact soft_nil
  | cons first others => exact soft_cons stop

theorem to_list_intercalate {separator : String} {c : Char}
    (spelled : separator.toList = [c, ' ']) (text : α → String) (first : α) (others : List α) :
    (separator.intercalate ((first :: others).map text)).toList =
      (text first).toList ++ behindChars c (fun item => (text item).toList) others := by
  induction others generalizing first with
  | nil => simp [behindChars]
  | cons second others induction =>
      have tail := induction second
      rw [List.map_cons] at tail
      rw [List.map_cons, List.map_cons, String.intercalate_cons_cons, String.toList_append,
        String.toList_append, spelled, tail]
      simp [behindChars]

end Separated

end TinyPascal
