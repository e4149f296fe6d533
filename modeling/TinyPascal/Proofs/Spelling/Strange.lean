import Mathlib.Data.List.Forall2
import TinyPascal.Proofs.Spelling.Longest

/-!
# Strange symbols

A character that no class of tokens has a use for is a token of its own, and is reported where it
stands. This does not hang on what stands around it, so a text of tokens with breaks between them
shows the same tokens wherever they were taken from, and the same strange symbols.
-/

namespace TinyPascal

set_option autoImplicit false

def Token.strange (token : Token) : Diagnostics :=
  if token.kind = .unknown then
    token.lexeme.toList.map fun c => .lexical token.position (.unrecognized c)
  else []

/-- The finding is about a token that is one strange symbol, and names it. -/
def Diagnostic.BlamesSymbol (finding : Diagnostic) (token : Token) : Prop :=
  token.kind = .unknown ∧ ∃ c : Char, token.lexeme = String.singleton c ∧
    finding = .lexical token.position (.unrecognized c)

namespace Token

/-- A token of unknown kind is one character. -/
def IsSingle (token : Token) : Prop :=
  token.kind = .unknown → ∃ c : Char, token.lexeme = String.singleton c

variable {token : Token}

theorem strange_of_known (known : token.kind ≠ .unknown) : token.strange = [] :=
  if_neg known

theorem strange_of_symbol {c : Char} (unknown : token.kind = .unknown)
    (symbol : token.lexeme = String.singleton c) :
    token.strange = [.lexical token.position (.unrecognized c)] := by
  rw [strange, if_pos unknown, symbol, String.singleton_eq_ofList, String.toList_ofList]
  rfl

theorem mem_strange_iff (single : token.IsSingle) {finding : Diagnostic} :
    finding ∈ token.strange ↔ finding.BlamesSymbol token := by
  by_cases unknown : token.kind = .unknown
  · rcases single unknown with ⟨c, symbol⟩
    rw [strange_of_symbol unknown symbol, List.mem_singleton]
    constructor
    · intro same
      exact ⟨unknown, c, symbol, same⟩
    · rintro ⟨-, d, other, rfl⟩
      rw [symbol, String.singleton_inj] at other
      rw [other]
  · rw [strange_of_known unknown]
    constructor
    · intro member
      cases member
    · intro blames
      exact absurd blames.1 unknown

theorem forall₂_strange {tokens : List Token} (single : ∀ token ∈ tokens, token.IsSingle) :
    List.Forall₂ Diagnostic.BlamesSymbol (tokens.flatMap strange)
      (tokens.filter fun token => token.kind = .unknown) := by
  induction tokens with
  | nil => exact .nil
  | cons token tokens induction =>
      rcases List.forall_mem_cons.mp single with ⟨first, others⟩
      have rest := induction others
      rw [List.flatMap_cons]
      by_cases unknown : token.kind = .unknown
      · rcases first unknown with ⟨c, symbol⟩
        rw [strange_of_symbol unknown symbol, List.filter_cons_of_pos (by simpa using unknown)]
        exact .cons ⟨unknown, c, symbol, rfl⟩ rest
      · rw [strange_of_known unknown, List.filter_cons_of_neg (by simpa using unknown)]
        exact rest

end Token

namespace Lexeme

variable {c : Char} {cs : List Char}

/-- A strange symbol stays one whatever comes behind it. -/
theorem cut_of_unknown (unknown : (cut c cs).kind = .unknown) (rest : List Char) :
    cut c rest = ⟨.unknown, [c], rest⟩ := by
  unfold cut at unknown ⊢
  split at unknown
  · exact absurd unknown (Kind.of_word_ne_unknown _)
  · next notLetter =>
    rw [if_neg notLetter]
    split at unknown
    · unfold number at unknown
      split at unknown
      · split at unknown <;> cases unknown
      · cases unknown
    · next notDigit =>
      rw [if_neg notDigit]
      have strange : symbolKind c = .unknown := by
        unfold symbol at unknown
        split at unknown
        · exact unknown
        · split at unknown
          · next joined => exact absurd unknown (pair_kind_ne_unknown joined)
          · exact unknown
      have alone : ∀ d, pairKind? c d = none := by
        intro d
        unfold pairKind?
        split
        case h_5 => rfl
        all_goals cases strange
      cases rest with
      | nil => simp only [symbol, strange]
      | cons d rest => simp only [symbol, alone, strange]

end Lexeme

/-- The token is read in front of every break, wherever it stands. -/
def Token.IsDetached (token : Token) : Prop :=
  ∀ here rest, Lexeme.Before Lexeme.isBreak rest →
    Reading.lookAt here (token.lexeme.toList ++ rest) =
      ⟨strange { token with position := here },
        Reading.token token.kind here token.lexeme.toList rest⟩

namespace Reading

open Lexeme

theorem is_single_of_look_at {here after : Position} {cs rest : List Char} {token : Token}
    (found : (lookAt here cs).found = .token token after rest) : token.IsSingle := by
  intro unknown
  rcases Scan.token_of_look_at found with
    ⟨c, others, -, -, -, ⟨-, -, -, isComment, -⟩ | ⟨-, kind, lexeme⟩⟩
  · rw [isComment] at unknown
    cases unknown
  · rw [kind] at unknown
    rw [lexeme, text_of_unknown unknown, ← String.singleton_eq_ofList]
    exact ⟨c, rfl⟩

theorem look_at_of_unknown (here : Position) {c : Char} (notFiller : isFiller c = false)
    (notOpening : c ≠ '{') {rest : List Char} (unknown : cut c rest = ⟨.unknown, [c], rest⟩) :
    lookAt here (c :: rest) =
      ⟨[.lexical here (.unrecognized c)], Reading.token .unknown here [c] rest⟩ := by
  simp [lookAt, notFiller, notOpening, unknown, strayBraces]

end Reading

theorem Token.IsWritten.known {token : Token} (written : token.IsWritten) :
    token.kind ≠ .unknown := by
  rcases written with ⟨rest, c, cs, -, -, -, known, -⟩
  exact known

theorem Token.IsWritten.is_detached {token : Token} (written : token.IsWritten) :
    token.IsDetached := by
  intro here rest before
  rw [strange_of_known (by exact written.known)]
  exact Spells.look_at_of_cuts here (Lexeme.Written.cuts written before)

namespace Scan

open Lexeme

theorem is_single_of_read_from (here : Position) (cs : List Char) :
    ∀ item ∈ (readFrom here cs).items, item.token.IsSingle :=
  forall_items Reading.is_single_of_look_at here cs

theorem is_detached_of_look_at {here after : Position} {cs rest : List Char} {token : Token}
    (found : (Reading.lookAt here cs).found = .token token after rest)
    (noComment : token.kind ≠ .comment) : token.IsDetached := by
  by_cases unknown : token.kind = .unknown
  · rcases token_of_look_at found with
      ⟨c, others, -, notFiller, -, ⟨-, -, -, isComment, -⟩ | ⟨notOpening, kind, lexeme⟩⟩
    · exact absurd isComment noComment
    · rw [unknown] at kind
      rw [text_of_unknown kind.symm, ← String.singleton_eq_ofList] at lexeme
      intro here rest _
      rw [Token.strange_of_symbol (by exact unknown) (by exact lexeme), unknown, lexeme,
        String.singleton_eq_ofList, String.toList_ofList]
      exact Reading.look_at_of_unknown here notFiller notOpening (cut_of_unknown kind.symm rest)
  · exact (written_of_look_at found noComment unknown).is_detached

theorem is_detached_of_words {source : String} :
    ∀ token ∈ (ofText source).words, token.IsDetached := by
  intro token member
  rcases List.mem_filter.mp member with ⟨scanned, noComment⟩
  rcases List.mem_map.mp scanned with ⟨item, found, rfl⟩
  exact forall_items is_detached_of_look_at _ _ item found (by simpa using noComment)

/-- The scan found `words`, reported the strange ones among them, and nothing else. -/
structure Shows (scan : Scan) (words : List Token) : Prop where
  words : scan.items.map (fun item => item.token.bare) = words
  faults : ∀ item ∈ scan.items, item.faults = item.token.strange
  cleanEnd : scan.ending.faults = []
  whole : scan.truncated = false

variable {scan : Scan} {words : List Token}

theorem Shows.finds (shows : scan.Shows words) (known : ∀ word ∈ words, word.kind ≠ .unknown) :
    scan.Finds words := by
  refine ⟨shows.words, ?_, shows.cleanEnd, shows.whole⟩
  intro item member
  have listed : item.token.bare ∈ words := by
    rw [← shows.words]
    exact List.mem_map_of_mem member
  rw [shows.faults item member]
  have ordinary : item.token.kind ≠ .unknown := known item.token.bare listed
  exact Token.strange_of_known ordinary

theorem Shows.cons {token : Token} {here : Position} {rest : List Char}
    (detached : token.IsDetached) (before : Before isBreak rest)
    (others : (readFrom (here.advance token.lexeme.toList) rest).Shows words) :
    (readFrom here (token.lexeme.toList ++ rest)).Shows (token.bare :: words) := by
  have reading := detached here rest before
  rcases others with ⟨found, faults, cleanEnd, whole⟩
  rw [Reading.token, String.ofList_toList] at reading
  rw [read_from_of_token (congrArg Reading.found reading), reading]
  refine ⟨?_, ?_, cleanEnd, whole⟩
  · rw [List.map_cons, found]
    rfl
  · exact List.forall_mem_cons.mpr ⟨rfl, faults⟩

theorem Shows.blank {here : Position} {rest : List Char}
    (others : (readFrom (here.step ' ') rest).Shows words) :
    (readFrom here (' ' :: rest)).Shows words := by
  rcases others with ⟨found, faults, cleanEnd, whole⟩
  rcases Spells.read_from_blank here rest with ⟨items, endFaults, truncated⟩
  rw [← items] at found faults
  exact ⟨found, faults, endFaults.trans cleanEnd, truncated.trans whole⟩

theorem Shows.diagnostics_eq (shows : scan.Shows words) :
    scan.diagnostics = (scan.items.map Item.token).flatMap Token.strange := by
  rw [diagnostics, shows.cleanEnd, List.append_nil, List.flatMap_map]
  exact List.flatMap_congr shows.faults

end Scan

/-- Tokens with single blanks between them are scanned again, wherever the text stands. -/
theorem shows_joined {tokens : List Token} (detached : ∀ token ∈ tokens, token.IsDetached)
    (here : Position) :
    (Scan.readFrom here (" ".intercalate (tokens.map Token.lexeme)).toList).Shows
      (tokens.map Token.bare) := by
  induction tokens generalizing here with
  | nil =>
      have nothing : (Reading.lookAt here []).found = .nothing := rfl
      simp only [List.map_nil, String.intercalate_nil, String.toList_empty]
      rw [Scan.read_from_of_nothing nothing]
      exact ⟨rfl, List.forall_mem_nil _, rfl, rfl⟩
  | cons first others induction =>
      rcases List.forall_mem_cons.mp detached with ⟨head, tail⟩
      cases others with
      | nil =>
          have shows := Scan.Shows.cons head Lexeme.before_nil
            (induction tail (here.advance first.lexeme.toList))
          simpa using shows
      | cons second others =>
          have shows := Scan.Shows.cons head (Lexeme.before_cons (by decide))
            (induction tail ((here.advance first.lexeme.toList).step ' ')).blank
          simpa [String.intercalate_cons_cons] using shows

end TinyPascal
