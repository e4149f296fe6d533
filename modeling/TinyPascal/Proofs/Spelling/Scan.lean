import TinyPascal.Proofs.Outcome
import TinyPascal.Proofs.Parallel.View
import TinyPascal.Proofs.Spelling.Lexeme

/-!
# Texts that spell words

A word is a token that stands nowhere in particular. A text spells words if they are what a scan
finds in it, without a fault. Such a text is put together word by word, where each
word has to be cut off what follows it.
-/

namespace TinyPascal

set_option autoImplicit false

def Token.ofText (kind : Kind) (text : String) : Token := ⟨kind, text, .start⟩

theorem Token.of_text_to_list (token : Token) :
    Token.ofText token.kind (String.ofList token.lexeme.toList) = token.bare := by
  rw [String.ofList_toList]
  rfl

namespace Scan

theorem read_from_of_token {here after : Position} {cs rest : List Char} {token : Token}
    (found : (Reading.lookAt here cs).found = .token token after rest) :
    readFrom here cs = { readFrom after rest with
      items := ⟨token, (Reading.lookAt here cs).faults⟩ :: (readFrom after rest).items } := by
  rw [readFrom]
  split
  · next same =>
    cases same.symm.trans found
    rfl
  · next other => cases other.symm.trans found
  · next other => cases other.symm.trans found

theorem read_from_of_nothing {here : Position} {cs : List Char}
    (found : (Reading.lookAt here cs).found = .nothing) :
    readFrom here cs = ⟨[], ⟨.endOfFile here, (Reading.lookAt here cs).faults⟩, false⟩ := by
  rw [readFrom]
  split
  · next other => cases other.symm.trans found
  · rfl
  · next other => cases other.symm.trans found

theorem read_from_of_unclosed_comment {here : Position} {cs : List Char}
    (found : (Reading.lookAt here cs).found = .unclosedComment) :
    readFrom here cs = ⟨[], ⟨.endOfFile here, (Reading.lookAt here cs).faults⟩, true⟩ := by
  rw [readFrom]
  split
  · next other => cases other.symm.trans found
  · next other => cases other.symm.trans found
  · rfl

/-- The scan found `words` and no fault. -/
structure Finds (scan : Scan) (words : List Token) : Prop where
  words : scan.items.map (fun item => item.token.bare) = words
  clean : ∀ item ∈ scan.items, item.faults = []
  cleanEnd : scan.ending.faults = []
  whole : scan.truncated = false

end Scan

/-- Wherever it stands, the text is scanned into `words`. -/
def Spells (text : List Char) (words : List Token) : Prop :=
  ∀ here, (Scan.readFrom here text).Finds words

namespace Spells

open Lexeme

variable {text rest : List Char} {words : List Token} {kind : Kind}

theorem nil : Spells [] [] := by
  intro here
  rw [Scan.read_from_of_nothing rfl]
  exact ⟨rfl, fun item member => (List.not_mem_nil member).elim, rfl, rfl⟩

theorem look_at_of_cuts (here : Position) (cuts : Cuts kind text rest) :
    Reading.lookAt here (text ++ rest) = ⟨[], Reading.token kind here text rest⟩ := by
  obtain ⟨c, cs, rfl, notFiller, notOpening, known, same⟩ := cuts
  simp [Reading.lookAt, notFiller, notOpening, same, known, Reading.strayBraces, Position.advance]

theorem cons (cuts : Cuts kind text rest) (others : Spells rest words) :
    Spells (text ++ rest) (.ofText kind (String.ofList text) :: words) := by
  intro here
  obtain ⟨found, clean, cleanEnd, whole⟩ := others (here.advance text)
  have reading := look_at_of_cuts here cuts
  rw [Scan.read_from_of_token (congrArg Reading.found reading)]
  refine ⟨?_, ?_, cleanEnd, whole⟩
  · rw [List.map_cons, found]
    rfl
  · intro item member
    rcases List.mem_cons.mp member with rfl | member
    · rw [reading]
    · exact clean item member

theorem look_at_blank (here : Position) (cs : List Char) :
    Reading.lookAt here (' ' :: cs) = Reading.lookAt (here.step ' ') cs := by
  have filler : isFiller ' ' = true := by decide
  simp [Reading.lookAt, filler, Reading.strayBraces]

theorem read_from_blank (here : Position) (cs : List Char) :
    (Scan.readFrom here (' ' :: cs)).items = (Scan.readFrom (here.step ' ') cs).items ∧
      (Scan.readFrom here (' ' :: cs)).ending.faults =
        (Scan.readFrom (here.step ' ') cs).ending.faults ∧
      (Scan.readFrom here (' ' :: cs)).truncated = (Scan.readFrom (here.step ' ') cs).truncated := by
  have same := look_at_blank here cs
  cases reading : (Reading.lookAt (here.step ' ') cs).found with
  | token token after behind =>
      rw [Scan.read_from_of_token reading]
      rw [← same] at reading
      rw [Scan.read_from_of_token reading, same]
      exact ⟨rfl, rfl, rfl⟩
  | nothing =>
      rw [Scan.read_from_of_nothing reading]
      rw [← same] at reading
      rw [Scan.read_from_of_nothing reading, same]
      exact ⟨rfl, rfl, rfl⟩
  | unclosedComment =>
      rw [Scan.read_from_of_unclosed_comment reading]
      rw [← same] at reading
      rw [Scan.read_from_of_unclosed_comment reading, same]
      exact ⟨rfl, rfl, rfl⟩

theorem blank (others : Spells rest words) : Spells (' ' :: rest) words := by
  intro here
  rcases others (here.step ' ') with ⟨found, clean, cleanEnd, whole⟩
  rcases read_from_blank here rest with ⟨items, endFaults, truncated⟩
  rw [← items] at found clean
  exact ⟨found, clean, endFaults.trans cleanEnd, truncated.trans whole⟩

end Spells

namespace Token

def IsWritten (token : Token) : Prop := Lexeme.Written token.kind token.lexeme.toList

end Token

namespace Scan

open Lexeme

theorem token_of_look_at {here after : Position} {cs rest : List Char} {token : Token}
    (found : (Reading.lookAt here cs).found = .token token after rest) :
    ∃ c others, cs.dropWhile isFiller = c :: others ∧ isFiller c = false ∧
      token.position = here.advance (cs.takeWhile isFiller) ∧
      ((c = '{' ∧ ∃ body, closeComment others = some (body, rest) ∧
          token.kind = .comment ∧ token.lexeme = String.ofList ('{' :: body)) ∨
        (c ≠ '{' ∧ token.kind = (cut c others).kind ∧
          token.lexeme = String.ofList (cut c others).text)) := by
  unfold Reading.lookAt at found
  cases behind : cs.dropWhile isFiller with
  | nil => simp [behind] at found
  | cons c others =>
      have notFiller : isFiller c = false := by
        have stops := List.head_dropWhile_not isFiller (l := cs) (by simp [behind])
        simpa [behind] using stops
      simp only [behind] at found
      split at found
      · next opening =>
        subst opening
        split at found
        · next body _ closed =>
          simp only [Reading.token, Found.token.injEq] at found
          rcases found with ⟨rfl, -, rfl⟩
          exact ⟨_, others, rfl, notFiller, rfl, .inl ⟨rfl, body, closed, rfl, rfl⟩⟩
        · cases found
      · next notOpening =>
        simp only [Reading.token, Found.token.injEq] at found
        rcases found with ⟨rfl, -, -⟩
        exact ⟨c, others, rfl, notFiller, rfl, .inr ⟨notOpening, rfl, rfl⟩⟩

theorem written_of_look_at {here after : Position} {cs rest : List Char} {token : Token}
    (found : (Reading.lookAt here cs).found = .token token after rest)
    (noComment : token.kind ≠ .comment) (known : token.kind ≠ .unknown) : token.IsWritten := by
  rcases token_of_look_at found with
    ⟨c, others, -, notFiller, -, ⟨-, -, -, isComment, -⟩ | ⟨notOpening, kind, lexeme⟩⟩
  · contradiction
  · unfold Token.IsWritten
    rw [kind] at known ⊢
    rw [lexeme, String.toList_ofList]
    exact written_of_cut notFiller notOpening known

theorem forall_items {property : Token → Prop} (each : ∀ {here after cs rest token},
      (Reading.lookAt here cs).found = .token token after rest → property token)
    (here : Position) (cs : List Char) :
    ∀ item ∈ (readFrom here cs).items, property item.token := by
  fun_induction readFrom here cs with
  | case1 here cs reading token after rest found _ following induction =>
      exact List.forall_mem_cons.mpr ⟨each found, induction⟩
  | case2 | case3 => exact List.forall_mem_nil _

theorem written_of_words {source : String} {token : Token} (member : token ∈ (ofText source).words)
    (known : token.kind ≠ .unknown) : token.IsWritten := by
  obtain ⟨scanned, noComment⟩ := List.mem_filter.mp member
  obtain ⟨item, found, rfl⟩ := List.mem_map.mp scanned
  exact forall_items written_of_look_at _ _ item found (by simpa using noComment) known

theorem faults_ahead_eq_nil {ending : Item} {items : List Item} (clean : ∀ item ∈ items, item.faults = [])
    (cleanEnd : ending.faults = []) (count : Nat) : faultsAhead ending items count = [] := by
  induction items generalizing count with
  | nil =>
      cases count with
      | zero => rfl
      | succ count => exact cleanEnd
  | cons item items induction =>
      cases count with
      | zero => rfl
      | succ count =>
          rw [faultsAhead, clean item List.mem_cons_self, List.nil_append]
          exact induction (fun other member => clean other (List.mem_cons_of_mem _ member)) _

end Scan

namespace Spells

variable {source : String} {words : List Token}

theorem words_eq (spells : Spells source.toList words)
    (noComment : ∀ word ∈ words, word.kind ≠ .comment) :
    (Scan.ofText source).words.map Token.bare = words := by
  obtain ⟨found, -, -, -⟩ := spells .start
  have all : (Scan.ofText source).words = (Scan.ofText source).items.map Item.token := by
    apply List.filter_eq_self.mpr
    intro token member
    obtain ⟨item, scanned, rfl⟩ := List.mem_map.mp member
    have listed : item.token.bare ∈ words := by
      rw [← found]
      exact List.mem_map_of_mem scanned
    simpa using noComment _ listed
  rw [all, List.map_map]
  exact found

theorem faults_within_eq_nil (spells : Spells source.toList words) (count : Nat) :
    (Scan.ofText source).faultsWithin count = [] :=
  Scan.faults_ahead_eq_nil (spells .start).clean (spells .start).cleanEnd count

end Spells

end TinyPascal
