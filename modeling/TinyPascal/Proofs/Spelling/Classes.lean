import TinyPascal.Proofs.Spelling.Fixed
import TinyPascal.Proofs.Spelling.Places

/-!
# Token classes

What a comment, a word, a number and an operator look like is said here for texts of their own,
without a word about how they are scanned. At the head of a text several of them may match; the
longest is the one that is cut off.
-/

namespace TinyPascal

set_option autoImplicit false

def Kind.operators : List (String × Kind) :=
  [(":=", assign), ("<=", lessEqual), ("<>", notEqual), (">=", greaterEqual), (":", colon),
   ("<", less), (">", greater), ("+", plus), ("-", minus), ("*", times), ("/", divide),
   ("=", equal), (";", semicolon), (".", dot), (",", comma), ("(", lparen), (")", rparen)]

theorem Kind.of_word_ne_unknown (word : String) : ofWord word ≠ unknown := by
  have real : ∀ entry ∈ reserved, entry.2 ≠ unknown := by decide
  by_cases isName : ofWord word = ident
  · rw [isName]
    decide
  · exact real _ (mem_reserved_of_word isName)

theorem Kind.of_word_of_reserved : ∀ entry ∈ reserved, ofWord entry.1 = entry.2 := by
  decide +kernel

theorem Kind.ident_not_reserved : ∀ entry ∈ reserved, entry.2 ≠ ident := by
  decide

namespace Lexeme

/-- A letter, and letters, digits and underscores behind it. -/
def IsWord (text : List Char) : Prop :=
  ∃ first others, text = first :: others ∧ first.isAlpha = true ∧
    ∀ c ∈ others, isWordChar c = true

def IsDigits (text : List Char) : Prop := text ≠ [] ∧ ∀ c ∈ text, c.isDigit = true

/-- The text is one of the class of tokens of this kind. -/
inductive Belongs : Kind → List Char → Prop
  | comment {body : List Char} (unclosed : '}' ∉ body) : Belongs .comment ('{' :: (body ++ ['}']))
  | reserved {kind : Kind} {text : List Char} (word : IsWord text)
      (listed : (String.ofList text, kind) ∈ Kind.reserved) : Belongs kind text
  | name {text : List Char} (word : IsWord text)
      (free : ∀ entry ∈ Kind.reserved, entry.1 ≠ String.ofList text) : Belongs .ident text
  | whole {digits : List Char} (isWhole : IsDigits digits) : Belongs .intLit digits
  | fraction {whole digits : List Char} (front : IsDigits whole) (behind : IsDigits digits) :
      Belongs .realLit (whole ++ '.' :: digits)
  | operator {kind : Kind} {text : List Char}
      (listed : (String.ofList text, kind) ∈ Kind.operators) : Belongs kind text

/-- Of everything that belongs to a class and stands at the head of `behind`, `text` is the
longest, and it belongs to no other class. -/
structure Longest (kind : Kind) (text behind : List Char) : Prop where
  belongs : Belongs kind text
  stands : text <+: behind
  longest : ∀ other longer, Belongs other longer → longer <+: behind → longer.length ≤ text.length
  only : ∀ other, Belongs other text → other = kind

variable {kind : Kind} {text cs : List Char} {c : Char}

theorem symbols_of_operator (listed : (String.ofList text, kind) ∈ Kind.operators) :
    ∃ c cs, text = c :: cs ∧ Symbols c kind cs ∧ kind ≠ .unknown ∧ c.isAlpha = false ∧
      c.isDigit = false ∧ c ≠ '{' := by
  have each : ∀ entry ∈ Kind.operators, isWhole entry.2 entry.1.toList = true ∧
      (entry.1.toList.all fun c => !c.isAlpha && !c.isDigit) = true := by
    decide +kernel
  have found := each _ listed
  rw [String.toList_ofList] at found
  cases text with
  | nil => cases found.1
  | cons c cs =>
      have notLetter := List.all_eq_true.mp found.2 c List.mem_cons_self
      rw [Bool.and_eq_true, Bool.not_eq_true', Bool.not_eq_true'] at notLetter
      have whole := found.1
      simp only [isWhole, Bool.and_eq_true, Bool.not_eq_true', bne_iff_ne, ne_eq,
        decide_eq_true_eq] at whole
      rcases whole with ⟨⟨⟨_, notOpening⟩, known⟩, cuts⟩
      simp only [cut, notLetter.1, notLetter.2, Bool.false_eq_true, if_false] at cuts
      have alone : symbol c (cs ++ []) = ⟨kind, c :: cs, []⟩ := by rwa [List.append_nil]
      have symbols := symbols_of_symbol alone
      exact ⟨c, cs, rfl, symbols, known, notLetter.1, notLetter.2, notOpening⟩

theorem operator_of_symbols (symbols : Symbols c kind cs) (known : kind ≠ .unknown) :
    (String.ofList (c :: cs), kind) ∈ Kind.operators := by
  cases symbols with
  | single =>
      unfold symbolKind at known ⊢
      split
      case h_14 => simp at known
      all_goals decide
  | pair joined =>
      unfold pairKind? at joined
      split at joined
      case h_5 => cases joined
      all_goals
        cases joined
        decide

/-- A lexeme is as long as `text` at least, and of the same kind if it is no longer. -/
structure Tops (lexeme : Lexeme) (kind : Kind) (text : List Char) : Prop where
  known : lexeme.kind ≠ .unknown
  reaches : text.length ≤ lexeme.text.length
  same : text.length = lexeme.text.length → kind = lexeme.kind

theorem Tops.refl (known : kind ≠ .unknown) (text rest : List Char) :
    Tops ⟨kind, text, rest⟩ kind text :=
  ⟨known, Nat.le_refl _, fun _ => rfl⟩

theorem of_word_of_free (free : ∀ entry ∈ Kind.reserved, entry.1 ≠ String.ofList text) :
    Kind.ofWord (String.ofList text) = .ident := by
  by_contra reservedWord
  exact free _ (Kind.mem_reserved_of_word reservedWord) rfl

theorem prefix_take_while {p : Char → Bool} {others behind : List Char}
    (inside : ∀ c ∈ others, p c = true) (stands : others <+: behind) :
    others <+: behind.takeWhile p := by
  rcases stands with ⟨rest, rfl⟩
  rw [List.takeWhile_append_of_pos inside]
  exact List.prefix_append _ _

theorem tops_word (isWord : IsWord text) (same : Kind.ofWord (String.ofList text) = kind)
    (stands : text <+: c :: cs) : Tops (cut c cs) kind text := by
  rcases isWord with ⟨first, others, rfl, letter, inside⟩
  rcases List.cons_prefix_cons.mp stands with ⟨rfl, behind⟩
  have part := prefix_take_while inside behind
  unfold cut
  rw [if_pos letter]
  apply Tops.mk
  · exact Kind.of_word_ne_unknown _
  · exact Nat.succ_le_succ part.length_le
  · intro length
    have whole := part.eq_of_length (Nat.succ.inj length)
    rw [← same, whole]
    rfl

theorem cut_digit (digit : c.isDigit = true) : cut c cs = number c cs := by
  have notLetter : c.isAlpha = false := by
    have low : c.toNat ≤ 57 := (Char.isDigit_iff_toNat.mp digit).2
    rw [Bool.eq_false_iff]
    intro letter
    change (decide ('A'.val ≤ c.val ∧ c.val ≤ 'Z'.val) ||
      (decide ('a'.val ≤ c.val) && decide (c.val ≤ 'z'.val))) = true at letter
    simp only [Bool.or_eq_true, Bool.and_eq_true, decide_eq_true_eq, UInt32.le_iff_toNat_le]
      at letter
    change (65 ≤ c.toNat ∧ c.toNat ≤ 90) ∨ (97 ≤ c.toNat ∧ c.toNat ≤ 122) at letter
    omega
  simp only [cut, notLetter, digit, Bool.false_eq_true, if_false, if_true]

theorem is_digits_cons (digit : c.isDigit = true) (inside : ∀ d ∈ cs, d.isDigit = true) :
    IsDigits (c :: cs) :=
  ⟨List.cons_ne_nil _ _, List.forall_mem_cons.mpr ⟨digit, inside⟩⟩

theorem IsDigits.eq_cons (isDigits : IsDigits text) : ∃ first others, text = first :: others ∧
    first.isDigit = true ∧ ∀ d ∈ others, d.isDigit = true := by
  rcases isDigits with ⟨nonempty, inside⟩
  cases text with
  | nil => contradiction
  | cons first others => exact ⟨first, others, rfl, List.forall_mem_cons.mp inside⟩

theorem tops_whole (isDigits : IsDigits text) (stands : text <+: c :: cs) :
    Tops (cut c cs) .intLit text := by
  rcases isDigits.eq_cons with ⟨first, others, rfl, digit, inside⟩
  rcases List.cons_prefix_cons.mp stands with ⟨rfl, behind⟩
  have part := (prefix_take_while inside behind).length_le
  rw [cut_digit digit]
  unfold number
  split
  · split
    · -- A fraction makes the number longer than its digits.
      apply Tops.mk
      · exact nofun
      · simp only [List.length_append, List.length_cons]
        omega
      · simp only [List.length_append, List.length_cons]
        omega
    · exact ⟨nofun, Nat.succ_le_succ part, fun _ => rfl⟩
  · exact ⟨nofun, Nat.succ_le_succ part, fun _ => rfl⟩

theorem tops_fraction {whole digits : List Char} (front : IsDigits whole) (behind : IsDigits digits)
    (stands : whole ++ '.' :: digits <+: c :: cs) :
    Tops (cut c cs) .realLit (whole ++ '.' :: digits) := by
  rcases front.eq_cons with ⟨first, others, rfl, digit, inside⟩
  rcases behind.eq_cons with ⟨next, more, rfl, second, fraction⟩
  rcases stands with ⟨rest, same⟩
  rw [List.cons_append, List.cons_append, List.append_assoc, List.cons_append, List.cons_append,
    List.cons.injEq] at same
  rcases same with ⟨rfl, rfl⟩
  have point : Before (fun c => !c.isDigit) ('.' :: next :: (more ++ rest)) :=
    before_cons (by decide)
  have part := (prefix_take_while fraction (List.prefix_append more rest)).length_le
  rw [cut_digit digit]
  unfold number
  simp only [take_while_before inside point, drop_while_before inside point, second, if_true]
  apply Tops.mk
  · exact nofun
  · simpa using part
  · exact fun _ => rfl

theorem pair_kind_ne_unknown {d : Char} (joined : pairKind? c d = some kind) : kind ≠ .unknown := by
  unfold pairKind? at joined
  split at joined
  case h_5 => cases joined
  all_goals
    cases joined
    decide

theorem tops_operator (listed : (String.ofList text, kind) ∈ Kind.operators)
    (stands : text <+: c :: cs) : Tops (cut c cs) kind text := by
  rcases symbols_of_operator listed with
    ⟨first, others, rfl, symbols, known, notLetter, notDigit, -⟩
  rcases List.cons_prefix_cons.mp stands with ⟨rfl, behind⟩
  simp only [cut, notLetter, notDigit, Bool.false_eq_true, if_false]
  cases symbols with
  | single =>
      cases cs with
      | nil => exact .refl known _ _
      | cons d rest =>
          cases joined : pairKind? first d with
          | none =>
              simp only [symbol, joined]
              exact .refl known _ _
          | some kind =>
              simp only [symbol, joined]
              apply Tops.mk
              · exact pair_kind_ne_unknown joined
              · exact Nat.le_succ 1
              · intro impossible
                cases impossible
  | pair joined =>
      rcases behind with ⟨rest, rfl⟩
      simp only [symbol, List.cons_append, List.nil_append, joined]
      exact .refl known _ _

theorem tops_of_belongs (belongs : Belongs kind text) (stands : text <+: c :: cs)
    (notOpening : c ≠ '{') : Tops (cut c cs) kind text := by
  cases belongs with
  | comment => exact absurd (List.cons_prefix_cons.mp stands).1.symm notOpening
  | reserved isWord listed => exact tops_word isWord (Kind.of_word_of_reserved _ listed) stands
  | name isWord free => exact tops_word isWord (of_word_of_free free) stands
  | whole isWhole => exact tops_whole isWhole stands
  | fraction front behind => exact tops_fraction front behind stands
  | operator listed => exact tops_operator listed stands

theorem Written.belongs (written : Written kind text) : Belongs kind text := by
  rcases written with ⟨rest, c, cs, rfl, -, -, known, cuts⟩
  unfold cut at cuts
  split at cuts
  · next letter =>
    rcases inside_of_word cuts with ⟨inside, rfl⟩
    have isWord : IsWord (c :: cs) := ⟨c, cs, rfl, letter, inside⟩
    by_cases isName : Kind.ofWord (String.ofList (c :: cs)) = .ident
    · rw [isName]
      apply Belongs.name isWord
      intro entry listed same
      have kind := Kind.of_word_of_reserved entry listed
      rw [same, isName] at kind
      exact Kind.ident_not_reserved entry listed kind.symm
    · exact .reserved isWord (Kind.mem_reserved_of_word isName)
  · split at cuts
    · next digit =>
      cases digits_of_number cuts with
      | int inside => exact .whole (is_digits_cons digit inside)
      | real inside next behind =>
          have front := is_digits_cons digit inside
          exact .fraction front (is_digits_cons next behind)
    · exact .operator (operator_of_symbols (symbols_of_symbol cuts) known)

end Lexeme

end TinyPascal
