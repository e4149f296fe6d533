import TinyPascal.Proofs.Spelling.Order
import TinyPascal.Proofs.Spelling.Strange

/-!
# Braces outside of comments

A brace opens a comment only where none is open, and closes only the one it stands in. Which braces
stand outside of all comments is decided by the text alone, character by character. To blame
are the closing ones among them, and an opening one that nothing closes.
-/

namespace TinyPascal

set_option autoImplicit false

/-- Whether a comment stands open behind a text. -/
def commentOpen (text : List Char) : Bool :=
  text.foldl (fun isOpen c => if isOpen then c != '}' else c == '{') false

theorem comment_open_snoc (text : List Char) (c : Char) :
    commentOpen (text ++ [c]) = if commentOpen text then c != '}' else c == '{' := by
  rw [commentOpen, List.foldl_append]
  rfl

theorem comment_open_inside {passed body : List Char} (inside : commentOpen passed = true)
    (noClosing : '}' ∉ body) : commentOpen (passed ++ body) = true := by
  induction body generalizing passed with
  | nil => rwa [List.append_nil]
  | cons c body induction =>
      rw [List.mem_cons, not_or] at noClosing
      have next : commentOpen (passed ++ [c]) = true := by
        rw [comment_open_snoc, inside]
        simpa using Ne.symm noClosing.1
      have behind := induction next noClosing.2
      rwa [List.append_assoc, List.singleton_append] at behind

theorem comment_open_opened {passed : List Char} (outside : commentOpen passed = false) :
    commentOpen (passed ++ ['{']) = true := by
  rw [comment_open_snoc, outside]
  rfl

namespace Diagnostic

/-- The finding is about the character `c` behind `passed` and in front of `rest`, a brace that
closes nothing or one that nothing closes. -/
def BlamesBraceAt (passed : List Char) (c : Char) (rest : List Char) (finding : Diagnostic) : Prop :=
  commentOpen passed = false ∧
    (c = '}' ∧ finding = .lexical (.behind passed) .unopenedComment ∨
      c = '{' ∧ '}' ∉ rest ∧ finding = .lexical (.behind passed) .unclosedComment)

/-- The finding is about a brace of `text`, which stands behind `passed`. -/
def BlamesBrace (passed text : List Char) (finding : Diagnostic) : Prop :=
  ∃ front c rest, text = front ++ c :: rest ∧ finding.BlamesBraceAt (passed ++ front) c rest

variable {passed text body rest : List Char} {c : Char} {finding : Diagnostic}

theorem not_blames_brace_at_of_open (isOpen : commentOpen passed = true) :
    ¬ finding.BlamesBraceAt passed c rest := by
  intro blames
  rw [blames.1] at isOpen
  cases isOpen

theorem not_blames_brace_nil : ¬ finding.BlamesBrace passed [] := by
  rintro ⟨front, c, rest, whole, -⟩
  exact List.append_ne_nil_of_right_ne_nil front (List.cons_ne_nil c rest) whole.symm

theorem blames_brace_cons : finding.BlamesBrace passed (c :: rest) ↔
    finding.BlamesBraceAt passed c rest ∨ finding.BlamesBrace (passed ++ [c]) rest := by
  constructor
  · rintro ⟨front, d, others, whole, blames⟩
    cases front with
    | nil =>
        cases whole
        rw [List.append_nil] at blames
        exact .inl blames
    | cons first front =>
        cases whole
        rw [← List.singleton_append, ← List.append_assoc] at blames
        exact .inr ⟨front, d, others, rfl, blames⟩
  · rintro (blames | ⟨front, d, others, rfl, blames⟩)
    · exact ⟨[], c, rest, rfl, by rwa [List.append_nil]⟩
    · rw [List.append_assoc, List.singleton_append] at blames
      exact ⟨c :: front, d, others, rfl, blames⟩

theorem blames_brace_outside (outside : commentOpen passed = false) (noOpening : '{' ∉ text)
    (rest : List Char) (finding : Diagnostic) :
    commentOpen (passed ++ text) = false ∧
      (finding.BlamesBrace passed (text ++ rest) ↔
        finding ∈ Reading.strayBraces (.behind passed) text ∨
          finding.BlamesBrace (passed ++ text) rest) := by
  induction text generalizing passed with
  | nil => simp [outside, Reading.strayBraces]
  | cons c text induction =>
      rw [List.mem_cons, not_or] at noOpening
      have next : commentOpen (passed ++ [c]) = false := by
        rw [comment_open_snoc, outside]
        simpa using Ne.symm noOpening.1
      rcases induction next noOpening.2 with ⟨behind, found⟩
      rw [List.append_assoc, List.singleton_append] at behind found
      refine ⟨behind, ?_⟩
      rw [List.cons_append, blames_brace_cons, found, Position.behind_snoc, Reading.strayBraces]
      by_cases closing : c = '}'
      · simp [BlamesBraceAt, outside, closing, or_assoc]
      · simp [BlamesBraceAt, outside, closing, Ne.symm noOpening.1]

theorem blames_brace_inside (inside : commentOpen passed = true) (noClosing : '}' ∉ body)
    (rest : List Char) (finding : Diagnostic) :
    finding.BlamesBrace passed (body ++ rest) ↔ finding.BlamesBrace (passed ++ body) rest := by
  induction body generalizing passed with
  | nil => rw [List.nil_append, List.append_nil]
  | cons c body induction =>
      rw [List.mem_cons, not_or] at noClosing
      have next : commentOpen (passed ++ [c]) = true :=
        comment_open_inside inside (by simpa using noClosing.1)
      have found := induction next noClosing.2
      rw [List.append_assoc, List.singleton_append] at found
      rw [List.cons_append, blames_brace_cons, found, or_iff_right (not_blames_brace_at_of_open inside)]

theorem blames_brace_comment (outside : commentOpen passed = false) (closed : '}' ∉ body)
    (rest : List Char) (finding : Diagnostic) :
    commentOpen (passed ++ '{' :: (body ++ ['}'])) = false ∧
      (finding.BlamesBrace passed ('{' :: (body ++ ['}']) ++ rest) ↔
        finding.BlamesBrace (passed ++ '{' :: (body ++ ['}'])) rest) := by
  have opened := comment_open_opened outside
  have inside := comment_open_inside opened closed
  have found := blames_brace_inside opened closed ('}' :: rest) finding
  have whole : passed ++ '{' :: (body ++ ['}']) = passed ++ ['{'] ++ body ++ ['}'] := by simp
  have closes : commentOpen (passed ++ '{' :: (body ++ ['}'])) = false := by
    rw [whole, comment_open_snoc, inside]
    rfl
  refine ⟨closes, ?_⟩
  have text : '{' :: (body ++ ['}']) ++ rest = '{' :: (body ++ '}' :: rest) := by simp
  have notBlamed : ¬ finding.BlamesBraceAt passed '{' (body ++ '}' :: rest) := by
    simp [BlamesBraceAt]
  rw [text, blames_brace_cons, or_iff_right notBlamed, found, blames_brace_cons,
    or_iff_right (not_blames_brace_at_of_open inside), whole]

end Diagnostic

/-- A text that leaves no comment open, and in which no brace is to blame. -/
inductive IsSettled : List Char → Prop
  | plain {text : List Char} (nonempty : text ≠ []) (noOpening : '{' ∉ text)
      (noClosing : '}' ∉ text) : IsSettled text
  | comment {body : List Char} (closed : '}' ∉ body) : IsSettled ('{' :: (body ++ ['}']))

namespace IsSettled

variable {passed text rest : List Char} {finding : Diagnostic}

theorem ne_nil (settled : IsSettled text) : text ≠ [] := by
  cases settled with
  | plain nonempty => exact nonempty
  | comment => exact List.cons_ne_nil _ _

theorem stray_braces_of_no_closing {here : Position} (noClosing : '}' ∉ text) :
    Reading.strayBraces here text = [] := by
  induction text generalizing here with
  | nil => rfl
  | cons c text induction =>
      rw [List.mem_cons, not_or] at noClosing
      rw [Reading.strayBraces, if_neg (Ne.symm noClosing.1), induction noClosing.2]

theorem blames_brace (settled : IsSettled text) (outside : commentOpen passed = false)
    (rest : List Char) (finding : Diagnostic) :
    commentOpen (passed ++ text) = false ∧
      (finding.BlamesBrace passed (text ++ rest) ↔ finding.BlamesBrace (passed ++ text) rest) := by
  cases settled with
  | plain nonempty noOpening noClosing =>
      have found := Diagnostic.blames_brace_outside outside noOpening rest finding
      rw [stray_braces_of_no_closing noClosing] at found
      simpa using found
  | comment closed => exact Diagnostic.blames_brace_comment outside closed rest finding

end IsSettled

namespace Lexeme

variable {c : Char} {cs : List Char}

theorem no_brace_of_belongs {kind : Kind} {text : List Char} (belongs : Belongs kind text)
    (noComment : text.head? ≠ some '{') : '{' ∉ text ∧ '}' ∉ text := by
  have ofWord : IsWord text → '{' ∉ text ∧ '}' ∉ text := by
    rintro ⟨first, others, rfl, letter, inside⟩
    have all : ∀ c ∈ first :: others, isWordChar c = true := by
      intro c member
      rcases List.mem_cons.mp member with rfl | member
      · simp [isWordChar, Char.isAlphanum, letter]
      · exact inside c member
    exact ⟨fun member => absurd (all _ member) (by decide),
      fun member => absurd (all _ member) (by decide)⟩
  have ofDigits : ∀ {digits : List Char}, IsDigits digits → '{' ∉ digits ∧ '}' ∉ digits := by
    rintro digits ⟨-, inside⟩
    exact ⟨fun member => absurd (inside _ member) (by decide),
      fun member => absurd (inside _ member) (by decide)⟩
  cases belongs with
  | comment => simp at noComment
  | reserved isWord | name isWord => exact ofWord isWord
  | whole isWhole => exact ofDigits isWhole
  | fraction front behind =>
      have first := ofDigits front
      have second := ofDigits behind
      simp [first, second]
  | operator listed =>
      have each : ∀ entry ∈ Kind.operators, '{' ∉ entry.1.toList ∧ '}' ∉ entry.1.toList := by
        decide +kernel
      have none := each _ listed
      rwa [String.toList_ofList] at none

theorem is_settled_cut (notFiller : isFiller c = false) (notOpening : c ≠ '{') :
    IsSettled (cut c cs).text := by
  have notClosing : c ≠ '}' := by
    rintro rfl
    exact absurd notFiller (by decide)
  by_cases unknown : (cut c cs).kind = .unknown
  · rw [text_of_unknown unknown]
    exact .plain (List.cons_ne_nil c []) (by simpa using Ne.symm notOpening)
      (by simpa using Ne.symm notClosing)
  · have belongs := (written_of_cut notFiller notOpening unknown).belongs
    have head : (cut c cs).text.head? ≠ some '{' := by
      intro opening
      rcases List.head?_eq_some_iff.mp opening with ⟨others, same⟩
      have whole := cut_append c cs
      rw [same, List.cons_append, List.cons.injEq] at whole
      exact notOpening whole.1.symm
    rcases no_brace_of_belongs belongs head with ⟨noOpening, noClosing⟩
    exact .plain (cut_text_ne_nil c cs) noOpening noClosing

end Lexeme

/-- The last brace that opens a comment in `text` stands behind `front` and in front of `back`. -/
structure IsLastOpening (text front back : List Char) : Prop where
  whole : text = front ++ '{' :: back
  outside : commentOpen front = false
  last : ∀ other behind, text = other ++ '{' :: behind → commentOpen other = false →
    other.length ≤ front.length

theorem is_last_opening_of_unclosed {text front back : List Char} (whole : text = front ++ '{' :: back)
    (outside : commentOpen front = false) (unclosed : '}' ∉ back) :
    IsLastOpening text front back := by
  refine ⟨whole, outside, ?_⟩
  intro other behind split noComment
  rw [whole] at split
  rcases List.append_eq_append_iff.mp split with ⟨more, rfl, same⟩ | ⟨more, rfl, -⟩
  · cases more with
    | nil => rw [List.append_nil]
    | cons c more =>
        rw [List.cons_append, List.cons.injEq] at same
        rcases same with ⟨rfl, rfl⟩
        rw [List.mem_append, not_or] at unclosed
        have hidden := comment_open_inside (comment_open_opened outside) unclosed.1
        rw [List.append_assoc, List.singleton_append, noComment] at hidden
        cases hidden
  · rw [List.length_append]
    exact Nat.le_add_right _ _

namespace Diagnostic

/-- The finding is about a brace of `text` that stands outside of all comments and closes nothing. -/
def BlamesClosing (text : List Char) (finding : Diagnostic) : Prop :=
  ∃ front back, text = front ++ '}' :: back ∧ commentOpen front = false ∧
    finding = .lexical (.behind front) .unopenedComment

/-- The finding is about the last brace that opens a comment in `text`, and nothing closes it. -/
def BlamesOpening (text : List Char) (finding : Diagnostic) : Prop :=
  ∃ front back, IsLastOpening text front back ∧ '}' ∉ back ∧
    finding = .lexical (.behind front) .unclosedComment

theorem blames_brace_iff {text : List Char} {finding : Diagnostic} :
    finding.BlamesBrace [] text ↔ finding.BlamesClosing text ∨ finding.BlamesOpening text := by
  constructor
  · rintro ⟨front, c, back, whole, outside, ⟨rfl, rfl⟩ | ⟨rfl, unclosed, rfl⟩⟩
    · exact .inl ⟨front, back, whole, outside, rfl⟩
    · exact .inr ⟨front, back, is_last_opening_of_unclosed whole outside unclosed, unclosed, rfl⟩
  · rintro (⟨front, back, whole, outside, rfl⟩ | ⟨front, back, isLast, unclosed, rfl⟩)
    · exact ⟨front, '}', back, whole, outside, .inl ⟨rfl, rfl⟩⟩
    · exact ⟨front, '{', back, isLast.whole, isLast.outside, .inr ⟨rfl, unclosed, rfl⟩⟩

end Diagnostic

namespace Diagnostic

/-- The finding is placed behind the text `passed`. -/
def StandsBehind (passed : List Char) (finding : Diagnostic) : Prop :=
  finding.line = (Position.behind passed).line ∧ finding.column = (Position.behind passed).column

theorem StandsBehind.precedes {passed more : List Char} {first second : Diagnostic}
    (isFirst : first.StandsBehind passed) (isSecond : second.StandsBehind (passed ++ more))
    (further : more ≠ []) : first.Precedes second := by
  have order := Position.behind_precedes passed further
  rw [Position.Precedes, ← isFirst.1, ← isFirst.2, ← isSecond.1, ← isSecond.2] at order
  exact order

theorem stands_behind_of_stray_braces {passed gap : List Char} {finding : Diagnostic}
    (member : finding ∈ Reading.strayBraces (.behind passed) gap) :
    ∃ front back, gap = front ++ back ∧ back ≠ [] ∧ finding.StandsBehind (passed ++ front) := by
  induction gap generalizing passed with
  | nil => cases member
  | cons c gap induction =>
      rw [Reading.strayBraces, ← Position.behind_snoc] at member
      have later : finding ∈ Reading.strayBraces (.behind (passed ++ [c])) gap →
          ∃ front back, c :: gap = front ++ back ∧ back ≠ [] ∧
            finding.StandsBehind (passed ++ front) := by
        intro member
        rcases induction member with ⟨front, back, rfl, nonempty, place⟩
        exact ⟨c :: front, back, rfl, nonempty, by simpa using place⟩
      split at member
      · rcases List.mem_cons.mp member with rfl | member
        · exact ⟨[], c :: gap, rfl, List.cons_ne_nil c gap, by rw [List.append_nil]; exact ⟨rfl, rfl⟩⟩
        · exact later member
      · exact later member

theorem precedes_of_stray_braces {passed gap : List Char} {stray finding : Diagnostic}
    (member : stray ∈ Reading.strayBraces (.behind passed) gap) (more : List Char)
    (place : finding.StandsBehind (passed ++ gap ++ more)) : stray.Precedes finding := by
  rcases stands_behind_of_stray_braces member with ⟨front, back, rfl, nonempty, first⟩
  have later : finding.StandsBehind (passed ++ front ++ (back ++ more)) := by simpa using place
  exact first.precedes later (List.append_ne_nil_of_left_ne_nil nonempty more)

theorem ordered_stray_braces (passed gap : List Char) :
    (Reading.strayBraces (.behind passed) gap).Pairwise Precedes := by
  induction gap generalizing passed with
  | nil => exact .nil
  | cons c gap induction =>
      rw [Reading.strayBraces, ← Position.behind_snoc]
      split
      · apply List.Pairwise.cons _ (induction (passed ++ [c]))
        intro later member
        rcases stands_behind_of_stray_braces member with ⟨front, back, -, -, place⟩
        rw [List.append_assoc] at place
        have here : StandsBehind passed (.lexical (.behind passed) .unopenedComment) := ⟨rfl, rfl⟩
        exact here.precedes place (List.cons_ne_nil c front)
      · exact induction (passed ++ [c])

theorem problem_of_stray_braces {here : Position} {cs : List Char} :
    ∀ finding ∈ Reading.strayBraces here cs, finding.problem = .lexical .unopenedComment := by
  induction cs generalizing here with
  | nil => exact List.forall_mem_nil _
  | cons c cs induction =>
      rw [Reading.strayBraces]
      split
      · exact List.forall_mem_cons.mpr ⟨rfl, induction⟩
      · exact induction

end Diagnostic

end TinyPascal
