import TinyPascal.Proofs.Spelling.Scan

/-!
# Kinds with a fixed spelling

Symbols and reserved words are always written the same way. Names and numbers are
not.
-/

namespace TinyPascal

set_option autoImplicit false

namespace Kind

/-- The only way to write a token of this kind, if there is only one. -/
def spelling? : Kind → Option String
  | lparen => "("
  | rparen => ")"
  | dot => "."
  | semicolon => ";"
  | colon => ":"
  | comma => ","
  | assign => ":="
  | equal => "="
  | notEqual => "<>"
  | less => "<"
  | lessEqual => "<="
  | greater => ">"
  | greaterEqual => ">="
  | plus => "+"
  | minus => "-"
  | times => "*"
  | divide => "/"
  | ident | intLit | realLit | comment | unknown | eof => none
  | word => (reserved.find? fun entry => entry.2 = word).map Prod.fst

theorem mem_reserved_of_word {word : String} (reservedWord : ofWord word ≠ ident) :
    (word, ofWord word) ∈ reserved := by
  unfold ofWord at reservedWord ⊢
  cases found : ofReserved? word with
  | none => exact absurd (by rw [found]; rfl) reservedWord
  | some kind =>
      obtain ⟨before, after, split, -⟩ := List.lookup_eq_some_iff.mp found
      rw [Option.getD_some, split]
      exact List.mem_append_right _ List.mem_cons_self

theorem spelling_of_reserved : ∀ entry ∈ reserved, entry.2.spelling? = some entry.1 := by
  decide

end Kind

namespace Lexeme

theorem spelling_symbol_kind {c : Char} (known : symbolKind c ≠ .unknown) :
    (symbolKind c).spelling? = some (String.ofList [c]) := by
  unfold symbolKind at known ⊢
  split
  case h_14 => simp at known
  all_goals rfl

theorem spelling_pair_kind {c d : Char} {kind : Kind} (joined : pairKind? c d = some kind) :
    kind.spelling? = some (String.ofList [c, d]) := by
  unfold pairKind? at joined
  split at joined
  case h_5 => cases joined
  all_goals
    cases joined
    rfl

theorem Written.eq_spelling {kind : Kind} {text : List Char} {fixed : String}
    (written : Written kind text) (spelled : kind.spelling? = some fixed) :
    String.ofList text = fixed := by
  obtain ⟨rest, c, cs, rfl, -, -, known, cuts⟩ := written
  refine Option.some.inj (Eq.trans ?_ spelled)
  symm
  unfold cut at cuts
  split at cuts
  · obtain ⟨-, rfl⟩ := inside_of_word cuts
    refine Kind.spelling_of_reserved _ (Kind.mem_reserved_of_word ?_)
    intro isName
    rw [isName] at spelled
    cases spelled
  · split at cuts
    · cases digits_of_number cuts with
      | int => cases spelled
      | real => cases spelled
    · cases symbols_of_symbol cuts with
      | single => exact spelling_symbol_kind known
      | pair joined => exact spelling_pair_kind joined

def isWhole (kind : Kind) : List Char → Bool
  | [] => false
  | c :: cs => !isFiller c && c != '{' && kind != .unknown && cut c cs = ⟨kind, c :: cs, []⟩

theorem written_of_is_whole {kind : Kind} {text : List Char} (whole : isWhole kind text = true) :
    Written kind text := by
  cases text with
  | nil => cases whole
  | cons c cs =>
      simp only [isWhole, Bool.and_eq_true, Bool.not_eq_true', bne_iff_ne, ne_eq,
        decide_eq_true_eq] at whole
      obtain ⟨⟨⟨notFiller, notOpening⟩, known⟩, cuts⟩ := whole
      exact ⟨[], c, cs, rfl, notFiller, notOpening, known, by rw [List.append_nil, cuts]⟩

theorem is_whole_spelling (kind : Kind) :
    (kind.spelling?.all fun fixed => isWhole kind fixed.toList) = true := by
  cases kind <;> decide +kernel

theorem written_of_spelling {kind : Kind} {fixed : String} (spelled : kind.spelling? = some fixed) :
    Written kind fixed.toList := by
  have whole := is_whole_spelling kind
  rw [spelled] at whole
  exact written_of_is_whole whole

end Lexeme

def Token.fixed (kind : Kind) : Token := .ofText kind (kind.spelling?.getD "")

namespace Token

variable {token : Token} {kind : Kind} {text : String}

theorem IsWritten.eq_spelling (written : token.IsWritten) (isKind : token.kind = kind)
    (spelled : kind.spelling? = some text) : token.lexeme = text := by
  subst isKind
  have same := Lexeme.Written.eq_spelling written spelled
  rwa [String.ofList_toList] at same

theorem is_written_fixed (spelled : kind.spelling? = some text) : (fixed kind).IsWritten := by
  unfold IsWritten fixed ofText
  rw [spelled]
  exact Lexeme.written_of_spelling spelled

end Token

end TinyPascal
