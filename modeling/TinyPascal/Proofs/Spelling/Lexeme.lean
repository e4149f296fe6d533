import Mathlib.Data.List.TakeWhile
import TinyPascal.Lexer.Lexeme

/-!
# Lexemes that are cut off again

A lexeme that was cut off one text is cut off any other text that starts with it,
if the next character cannot continue it. A blank never can.
-/

namespace TinyPascal.Lexeme

set_option autoImplicit false

/-- What the first character of `rest` is like, if there is one. -/
def Before (stops : Char → Bool) (rest : List Char) : Prop :=
  ∀ c, rest.head? = some c → stops c = true

/-- Characters that continue no lexeme. -/
def isBreak (c : Char) : Bool := !isWordChar c && c != '.' && c != '=' && c != '>'

/-- The lexeme `text` stands at the head of `text ++ rest`. -/
def Cuts (kind : Kind) (text rest : List Char) : Prop :=
  ∃ c cs, text = c :: cs ∧ isFiller c = false ∧ c ≠ '{' ∧ kind ≠ .unknown ∧
    cut c (cs ++ rest) = ⟨kind, text, rest⟩

/-- A lexeme of the language, wherever it was cut off. -/
def Written (kind : Kind) (text : List Char) : Prop := ∃ rest, Cuts kind text rest

variable {p stops : Char → Bool} {text rest : List Char} {kind : Kind} {c : Char} {cs : List Char}

theorem Before.mono {other : Char → Bool} (before : Before stops rest)
    (implies : ∀ c, stops c = true → other c = true) : Before other rest := by
  intro c head
  exact implies c (before c head)

theorem before_nil : Before stops [] := by
  intro c head
  cases head

theorem before_cons (stop : stops c = true) : Before stops (c :: rest) := by
  intro d head
  cases head
  exact stop

theorem take_while_before (inside : ∀ c ∈ text, p c = true) (before : Before (fun c => !p c) rest) :
    (text ++ rest).takeWhile p = text := by
  rw [List.takeWhile_append_of_pos inside]
  cases rest with
  | nil => simp
  | cons d more =>
      have stop : p d = false := by simpa using before d rfl
      simp [stop]

theorem drop_while_before (inside : ∀ c ∈ text, p c = true) (before : Before (fun c => !p c) rest) :
    (text ++ rest).dropWhile p = rest := by
  rw [List.dropWhile_append_of_pos inside]
  cases rest with
  | nil => rfl
  | cons d more =>
      have stop : p d = false := by simpa using before d rfl
      simp [stop]

theorem word_before (inside : ∀ c ∈ cs, isWordChar c = true)
    (before : Before (fun c => !isWordChar c) rest) :
    word c (cs ++ rest) = ⟨.ofWord (String.ofList (c :: cs)), c :: cs, rest⟩ := by
  simp only [word, take_while_before inside before, drop_while_before inside before]

theorem inside_of_word {rest : List Char} (cuts : word c (cs ++ rest) = ⟨kind, c :: cs, rest⟩) :
    (∀ c ∈ cs, isWordChar c = true) ∧ kind = .ofWord (String.ofList (c :: cs)) := by
  simp only [word, Lexeme.mk.injEq, List.cons.injEq, true_and] at cuts
  obtain ⟨same, inside, -⟩ := cuts
  rw [inside] at same
  refine ⟨?_, same.symm⟩
  rw [← inside]
  intro d member
  exact List.mem_takeWhile_imp member

/-- The digits behind the first one: all of them, or some of them with a fraction
behind them. -/
inductive Digits : Kind → List Char → Prop
  | int {whole : List Char} (inside : ∀ c ∈ whole, c.isDigit = true) : Digits .intLit whole
  | real {whole fraction : List Char} {d : Char} (inside : ∀ c ∈ whole, c.isDigit = true)
      (digit : d.isDigit = true) (behind : ∀ c ∈ fraction, c.isDigit = true) :
      Digits .realLit (whole ++ '.' :: d :: fraction)

theorem digits_of_number (cuts : number c (cs ++ rest) = ⟨kind, c :: cs, rest⟩) :
    Digits kind cs := by
  unfold number at cuts
  have inside : ∀ d ∈ (cs ++ rest).takeWhile Char.isDigit, d.isDigit = true := by
    intro d member
    exact List.mem_takeWhile_imp member
  split at cuts
  · split at cuts
    · next d more _ digit =>
      simp only [Lexeme.mk.injEq, List.cons_append, List.cons.injEq, true_and] at cuts
      obtain ⟨rfl, same, -⟩ := cuts
      rw [← same]
      exact .real inside digit fun e member => List.mem_takeWhile_imp member
    · simp only [Lexeme.mk.injEq, List.cons.injEq, true_and] at cuts
      obtain ⟨rfl, same, -⟩ := cuts
      rw [← same]
      exact .int inside
  · simp only [Lexeme.mk.injEq, List.cons.injEq, true_and] at cuts
    obtain ⟨rfl, same, -⟩ := cuts
    rw [← same]
    exact .int inside

def endsNumber (c : Char) : Bool := !c.isDigit && c != '.'

theorem number_before (digits : Digits kind cs) (before : Before endsNumber rest) :
    number c (cs ++ rest) = ⟨kind, c :: cs, rest⟩ := by
  have noDigit : Before (fun c => !c.isDigit) rest := before.mono fun c ends => by
    simp only [endsNumber, Bool.and_eq_true] at ends
    exact ends.1
  cases digits with
  | int inside =>
      unfold number
      rw [take_while_before inside noDigit, drop_while_before inside noDigit]
      split
      · exact absurd (before '.' rfl) (by decide)
      · rfl
  | @real whole fraction d inside digit behind =>
      have point : Before (fun c => !c.isDigit) ('.' :: d :: (fraction ++ rest)) :=
        before_cons (by decide)
      unfold number
      rw [List.append_assoc, List.cons_append, List.cons_append, take_while_before inside point,
        drop_while_before inside point]
      simp only [digit, if_true, take_while_before behind noDigit, drop_while_before behind noDigit]
      rfl

/-- One symbol, or two that form an operator. -/
inductive Symbols (c : Char) : Kind → List Char → Prop
  | single : Symbols c (symbolKind c) []
  | pair {d : Char} {kind : Kind} (joined : pairKind? c d = some kind) : Symbols c kind [d]

theorem symbols_of_symbol (cuts : symbol c (cs ++ rest) = ⟨kind, c :: cs, rest⟩) :
    Symbols c kind cs := by
  unfold symbol at cuts
  split at cuts
  · simp only [Lexeme.mk.injEq, List.cons.injEq, true_and] at cuts
    obtain ⟨rfl, rfl, -⟩ := cuts
    exact .single
  · split at cuts
    · next joined =>
      simp only [Lexeme.mk.injEq, List.cons.injEq, true_and] at cuts
      obtain ⟨rfl, rfl, -⟩ := cuts
      exact .pair joined
    · simp only [Lexeme.mk.injEq, List.cons.injEq, true_and] at cuts
      obtain ⟨rfl, rfl, -⟩ := cuts
      exact .single

def endsSymbol (c : Char) : Bool := c != '=' && c != '>'

theorem pair_kind_eq_none {d : Char} (ends : endsSymbol d = true) : pairKind? c d = none := by
  unfold pairKind?
  split
  case h_5 => rfl
  all_goals exact absurd ends (by decide)

theorem symbol_before (symbols : Symbols c kind cs) (before : Before endsSymbol rest) :
    symbol c (cs ++ rest) = ⟨kind, c :: cs, rest⟩ := by
  cases symbols with
  | single =>
      cases rest with
      | nil => rfl
      | cons d more => simp only [symbol, List.nil_append, pair_kind_eq_none (before d rfl)]
  | pair joined => simp only [symbol, List.cons_append, List.nil_append, joined]

theorem Written.cuts (written : Written kind text) (before : Before isBreak rest) :
    Cuts kind text rest := by
  obtain ⟨other, c, cs, rfl, notFiller, notOpening, known, cuts⟩ := written
  refine ⟨c, cs, rfl, notFiller, notOpening, known, ?_⟩
  unfold cut at cuts ⊢
  split
  · next letter =>
    rw [if_pos letter] at cuts
    obtain ⟨inside, rfl⟩ := inside_of_word cuts
    refine word_before inside (before.mono ?_)
    intro d stop
    simp only [isBreak, Bool.and_eq_true] at stop
    exact stop.1.1.1
  · next notLetter =>
    rw [if_neg notLetter] at cuts
    split
    · next digit =>
      rw [if_pos digit] at cuts
      refine number_before (digits_of_number cuts) (before.mono ?_)
      intro d stop
      simp only [isBreak, isWordChar, Char.isAlphanum, Bool.and_eq_true, Bool.not_eq_true',
        Bool.or_eq_false_iff] at stop
      simp [endsNumber, stop]
    · next notDigit =>
      rw [if_neg notDigit] at cuts
      refine symbol_before (symbols_of_symbol cuts) (before.mono ?_)
      intro d stop
      simp only [isBreak, Bool.and_eq_true] at stop
      simp only [endsSymbol, stop, Bool.and_true]

theorem written_of_cut (notFiller : isFiller c = false) (notOpening : c ≠ '{')
    (known : (cut c cs).kind ≠ .unknown) : Written (cut c cs).kind (cut c cs).text := by
  obtain ⟨first, others, same⟩ := List.exists_cons_of_ne_nil (cut_text_ne_nil c cs)
  have whole := cut_append c cs
  rw [same, List.cons_append, List.cons.injEq] at whole
  obtain ⟨rfl, behind⟩ := whole
  exact ⟨(cut first cs).rest, first, others, same, notFiller, notOpening, known, by rw [behind]⟩

/-- Symbols that never form an operator with the next one. -/
def isLone (c : Char) : Bool :=
  !c.isAlpha && !c.isDigit && !isFiller c && c != '{' && c != ':' && c != '<' && c != '>'

theorem cut_lone (lone : isLone c = true) (rest : List Char) :
    cut c rest = ⟨symbolKind c, [c], rest⟩ := by
  simp only [isLone, Bool.and_eq_true, Bool.not_eq_true', bne_iff_ne, ne_eq] at lone
  obtain ⟨⟨⟨⟨⟨⟨notAlpha, notDigit⟩, -⟩, -⟩, notColon⟩, notLess⟩, notGreater⟩ := lone
  have apart : ∀ d, pairKind? c d = none := by
    intro d
    unfold pairKind?
    split
    case h_5 => rfl
    all_goals contradiction
  unfold cut
  rw [if_neg (by simp [notAlpha]), if_neg (by simp [notDigit])]
  cases rest with
  | nil => rfl
  | cons d more => simp only [symbol, apart]

/-- Such a symbol is cut off in front of anything. -/
theorem Written.cuts_lone (written : Written kind [c]) (lone : isLone c = true) (rest : List Char) :
    Cuts kind [c] rest := by
  obtain ⟨other, _, _, same, notFiller, notOpening, known, cuts⟩ := written
  cases same
  rw [List.nil_append, cut_lone lone, Lexeme.mk.injEq] at cuts
  obtain ⟨rfl, -, -⟩ := cuts
  exact ⟨c, [], rfl, notFiller, notOpening, known, cut_lone lone rest⟩

end TinyPascal.Lexeme
