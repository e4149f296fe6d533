import TinyPascal.Proofs.Spelling.Places
import TinyPascal.Proofs.Spelling.Scan

/-!
# A comment that is never closed

A brace opened behind a text, and never closed, hides what follows it. It continues no
lexeme, so the tokens of the text stay what they were; only the end of the text is met
with one more fault.
-/

namespace TinyPascal

set_option autoImplicit false

namespace Lexeme

variable {p : Char → Bool} {tail : List Char}

theorem take_while_append_before (cs : List Char) (before : Before (fun c => !p c) tail) :
    (cs ++ tail).takeWhile p = cs.takeWhile p := by
  induction cs with
  | nil => exact take_while_before (List.forall_mem_nil _) before
  | cons c cs induction =>
      rw [List.cons_append, List.takeWhile_cons, List.takeWhile_cons, induction]

theorem drop_while_append_before (cs : List Char) (before : Before (fun c => !p c) tail) :
    (cs ++ tail).dropWhile p = cs.dropWhile p ++ tail := by
  induction cs with
  | nil => exact drop_while_before (List.forall_mem_nil _) before
  | cons c cs induction =>
      rw [List.cons_append, List.dropWhile_cons, List.dropWhile_cons, induction]
      split
      · rfl
      · rfl

variable (c : Char) (cs hidden : List Char)

theorem word_hiding : word c (cs ++ '{' :: hidden) =
    { word c cs with rest := (word c cs).rest ++ '{' :: hidden } := by
  have before : Before (fun c => !isWordChar c) ('{' :: hidden) := before_cons (by decide)
  simp only [word, take_while_append_before cs before, drop_while_append_before cs before]

theorem number_hiding : number c (cs ++ '{' :: hidden) =
    { number c cs with rest := (number c cs).rest ++ '{' :: hidden } := by
  have before : Before (fun c => !c.isDigit) ('{' :: hidden) := before_cons (by decide)
  unfold number
  rw [take_while_append_before cs before, drop_while_append_before cs before]
  -- A fraction takes two characters to begin: the point and a digit behind it.
  rcases cs.dropWhile Char.isDigit with _ | ⟨d, _ | ⟨e, more⟩⟩
  · rfl
  · by_cases point : d = '.'
    · rw [point]
      rfl
    · simp [point]
  · by_cases point : d = '.'
    · rw [point]
      by_cases digit : e.isDigit = true
      · simp [digit, take_while_append_before more before, drop_while_append_before more before]
      · simp [digit]
    · simp [point]

theorem symbol_hiding : symbol c (cs ++ '{' :: hidden) =
    { symbol c cs with rest := (symbol c cs).rest ++ '{' :: hidden } := by
  cases cs with
  | nil =>
      have alone : pairKind? c '{' = none := pair_kind_eq_none (by decide)
      simp [symbol, alone]
  | cons d rest =>
      unfold symbol
      cases pair : pairKind? c d <;> simp [pair]

/-- An opening brace behind a text does not change the lexemes before it. -/
theorem cut_hiding : cut c (cs ++ '{' :: hidden) =
    { cut c cs with rest := (cut c cs).rest ++ '{' :: hidden } := by
  unfold cut
  split
  · exact word_hiding c cs hidden
  · split
    · exact number_hiding c cs hidden
    · exact symbol_hiding c cs hidden

theorem close_comment_hiding {cs body rest : List Char} (closed : closeComment cs = some (body, rest))
    (tail : List Char) : closeComment (cs ++ tail) = some (body, rest ++ tail) := by
  unfold closeComment at closed ⊢
  cases behind : cs.dropWhile fun c => c != '}' with
  | nil =>
      rw [behind] at closed
      cases closed
  | cons brace others =>
      rw [behind] at closed
      cases closed
      have stop : (brace != '}') = false := by
        have first := List.head?_dropWhile_not (fun c => c != '}') cs
        rw [behind] at first
        simpa using first
      have split : cs = (cs.takeWhile fun c => c != '}') ++ brace :: rest := by
        rw [← behind]
        exact List.takeWhile_append_dropWhile.symm
      have inside : ∀ c ∈ cs.takeWhile (fun c => c != '}'), (c != '}') = true := by
        intro c member
        have passed := List.mem_takeWhile_imp (p := fun c => c != '}') member
        exact passed
      have before : Before (fun c => !(c != '}')) (brace :: (rest ++ tail)) :=
        before_cons (by simpa using stop)
      have whole : cs ++ tail = (cs.takeWhile fun c => c != '}') ++ brace :: (rest ++ tail) := by
        rw [← List.cons_append, ← List.append_assoc, ← split]
      rw [whole, take_while_before inside before, drop_while_before inside before]

theorem close_comment_of_not_mem {cs : List Char} (unclosed : '}' ∉ cs) : closeComment cs = none := by
  have inside : ∀ c ∈ cs, (c != '}') = true := by
    intro c member
    exact bne_iff_ne.mpr fun same => unclosed (same ▸ member)
  rw [closeComment, List.dropWhile_eq_nil_iff.mpr inside]

end Lexeme

namespace Reading

open Lexeme

variable {here after : Position} {cs rest : List Char} {token : Token}

theorem look_at_hiding_token (found : (lookAt here cs).found = .token token after rest)
    (hidden : List Char) :
    lookAt here (cs ++ '{' :: hidden) =
      ⟨(lookAt here cs).faults, .token token after (rest ++ '{' :: hidden)⟩ := by
  have before : Before (fun c => !isFiller c) ('{' :: hidden) := before_cons (by decide)
  unfold lookAt at found ⊢
  rw [take_while_append_before cs before, drop_while_append_before cs before]
  cases behind : cs.dropWhile isFiller with
  | nil => simp [behind] at found
  | cons c others =>
      simp only [behind] at found
      simp only [List.cons_append]
      by_cases opening : c = '{'
      · simp only [if_pos opening] at found ⊢
        cases closed : closeComment others with
        | none => simp [closed] at found
        | some pair =>
            simp only [closed] at found
            simp only [close_comment_hiding closed]
            cases found
            rfl
      · simp only [if_neg opening] at found ⊢
        cases found
        rw [cut_hiding]
        rfl

/-- Where the text ends, the brace is met instead. -/
theorem look_at_hiding_nothing (found : (lookAt here cs).found = .nothing) {hidden : List Char}
    (unclosed : '}' ∉ hidden) :
    lookAt here (cs ++ '{' :: hidden) =
      ⟨(lookAt here cs).faults ++ [.lexical (here.advance cs) .unclosedComment],
        .unclosedComment⟩ := by
  have before : Before (fun c => !isFiller c) ('{' :: hidden) := before_cons (by decide)
  unfold lookAt at found ⊢
  rw [take_while_append_before cs before, drop_while_append_before cs before]
  cases behind : cs.dropWhile isFiller with
  | nil =>
      have whole : cs.takeWhile isFiller = cs := by
        have split := cs.takeWhile_append_dropWhile (p := isFiller)
        rwa [behind, List.append_nil] at split
      simp only [List.nil_append, if_true, close_comment_of_not_mem unclosed, whole]
  | cons c others =>
      simp only [behind] at found
      split at found
      · split at found
        · cases found
        · cases found
      · cases found

end Reading

/-- The fault of a comment that is opened behind `source` and never closed. -/
def Diagnostic.unclosedBehind (source : String) : Diagnostic :=
  .lexical (.behind source.toList) .unclosedComment

namespace Scan

theorem read_from_hiding (passed cs : List Char) {hidden : List Char} (unclosed : '}' ∉ hidden)
    (whole : (readFrom (.behind passed) cs).truncated = false) :
    readFrom (.behind passed) (cs ++ '{' :: hidden) =
      ⟨(readFrom (.behind passed) cs).items,
        ⟨(readFrom (.behind passed) cs).ending.token, (readFrom (.behind passed) cs).ending.faults ++
          [.lexical (.behind (passed ++ cs)) .unclosedComment]⟩, true⟩ := by
  generalize start : Position.behind passed = here at whole ⊢
  fun_induction readFrom here cs generalizing passed with
  | case1 here cs reading token after rest found _ following induction =>
      subst start
      have described := Reading.describes_look_at passed cs
      rw [show (Reading.lookAt (.behind passed) cs).found = _ from found] at described
      rcases described with ⟨gap, text, split, -, -, -, -, -, behind⟩
      have place : passed ++ gap ++ text ++ rest = passed ++ cs := by simp [split]
      have hides := Reading.look_at_hiding_token found hidden
      rw [read_from_of_token (congrArg Reading.found hides), hides, induction _ behind.symm whole,
        place]
  | case2 here cs reading found =>
      subst start
      have hides := Reading.look_at_hiding_nothing found unclosed
      rw [read_from_of_unclosed_comment (congrArg Reading.found hides), hides, Position.advance_behind]
  | case3 => cases whole

/-- A comment that is never closed hides the rest of a text and nothing before it. -/
theorem of_text_hiding {source hidden : String} (unclosed : '}' ∉ hidden.toList)
    (whole : (ofText source).truncated = false) :
    ofText (source ++ "\x7b" ++ hidden) =
      ⟨(ofText source).items, ⟨(ofText source).ending.token, (ofText source).ending.faults ++
        [.unclosedBehind source]⟩, true⟩ := by
  have text : (source ++ "\x7b" ++ hidden).toList = source.toList ++ '{' :: hidden.toList := by
    simp
  rw [ofText, text]
  exact read_from_hiding [] source.toList unclosed whole

end Scan

end TinyPascal
