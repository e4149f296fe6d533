import TinyPascal.Proofs.Spelling.Braces

/-!
# What is reported about a text

A scan reports the braces to blame and every strange symbol, in the order of the text. Each token
brings along what is reported about the gap in front of it and about the token itself.
-/

namespace TinyPascal

set_option autoImplicit false

/-- Whether the finding names a symbol that no class of tokens has a use for. -/
def Diagnostic.namesSymbol (finding : Diagnostic) : Bool :=
  match finding.problem with
  | .lexical (.unrecognized _) => true
  | _ => false

/-- Behind the text `passed`, the text `rest` holds `tokens`, and `findings` are what is to be
reported about it. -/
inductive Surveyed : List Char → List Token → Diagnostics → List Char → Prop
  | ending {passed gap : List Char} (noOpening : '{' ∉ gap) :
      Surveyed passed [] (Reading.strayBraces (.behind passed) gap) gap
  | unclosed {passed gap hidden : List Char} (noOpening : '{' ∉ gap) (unclosed : '}' ∉ hidden) :
      Surveyed passed [] (Reading.strayBraces (.behind passed) gap ++
        [.lexical (.behind (passed ++ gap)) .unclosedComment]) (gap ++ '{' :: hidden)
  | token {passed gap text rest : List Char} {token : Token} {tokens : List Token}
      {findings : Diagnostics} (noOpening : '{' ∉ gap) (settled : IsSettled text)
      (single : token.IsSingle) (position : token.position = .behind (passed ++ gap))
      (others : Surveyed (passed ++ gap ++ text) tokens findings rest) :
      Surveyed passed (token :: tokens)
        (Reading.strayBraces (.behind passed) gap ++ (token.strange ++ findings)) (gap ++ text ++ rest)

namespace Reading

open Lexeme

/-- What a reading reports about the text it was made of, which stands behind `passed`. -/
def Reports (passed cs : List Char) (reading : Reading) : Prop :=
  match reading.found with
  | .token token after rest =>
      ∃ gap text, cs = gap ++ text ++ rest ∧ '{' ∉ gap ∧ IsSettled text ∧ token.IsSingle ∧
        token.position = .behind (passed ++ gap) ∧ after = .behind (passed ++ gap ++ text) ∧
        reading.faults = strayBraces (.behind passed) gap ++ token.strange
  | .nothing => '{' ∉ cs ∧ reading.faults = strayBraces (.behind passed) cs
  | .unclosedComment =>
      ∃ gap hidden, cs = gap ++ '{' :: hidden ∧ '{' ∉ gap ∧ '}' ∉ hidden ∧
        reading.faults = strayBraces (.behind passed) gap ++
          [.lexical (.behind (passed ++ gap)) .unclosedComment]

theorem reports_look_at (passed cs : List Char) : Reports passed cs (lookAt (.behind passed) cs) := by
  have noOpening : '{' ∉ cs.takeWhile isFiller := by
    intro member
    exact absurd (List.mem_takeWhile_imp member) (by decide)
  have whole : cs.takeWhile isFiller ++ cs.dropWhile isFiller = cs :=
    List.takeWhile_append_dropWhile
  have place := Position.advance_behind passed (cs.takeWhile isFiller)
  unfold lookAt
  cases remaining : cs.dropWhile isFiller with
  | nil =>
      rw [remaining, List.append_nil] at whole
      rw [whole] at noOpening
      exact ⟨noOpening, congrArg _ whole⟩
  | cons c rest =>
      have notFiller : isFiller c = false := by
        have stops := List.head_dropWhile_not isFiller (l := cs) (by simp [remaining])
        simpa [remaining] using stops
      rw [remaining] at whole
      by_cases opening : c = '{'
      · simp only [if_pos opening, place]
        subst opening
        cases closed : closeComment rest with
        | none => exact ⟨_, rest, whole.symm, noOpening, not_mem_of_close_comment closed, rfl⟩
        | some pair =>
            rcases unclosed_of_close_comment closed with ⟨body, ends, unclosed⟩
            have behind : pair.1 ++ pair.2 = rest := close_comment_append closed
            refine ⟨_, '{' :: pair.1, ?_, noOpening, ?_, nofun, rfl, Position.advance_behind _ _, ?_⟩
            · rw [List.append_assoc, List.cons_append, behind, whole]
            · rw [ends]
              exact .comment unclosed
            · exact (List.append_nil _).symm
      · simp only [if_neg opening, place]
        refine ⟨_, (cut c rest).text, ?_, noOpening, is_settled_cut notFiller opening, ?_, rfl,
          Position.advance_behind _ _, ?_⟩
        · rw [List.append_assoc, cut_append, whole]
        · intro unknown
          exact ⟨c, by rw [text_of_unknown unknown, String.singleton_eq_ofList]⟩
        · by_cases unknown : (cut c rest).kind = .unknown
          · rw [if_pos unknown, Token.strange_of_symbol (by exact unknown)
              (c := c) (by rw [text_of_unknown unknown, String.singleton_eq_ofList])]
          · rw [if_neg unknown, Token.strange_of_known (by exact unknown)]

end Reading

namespace Scan

theorem surveyed_read_from (passed cs : List Char) :
    Surveyed passed ((readFrom (.behind passed) cs).items.map Item.token)
      (readFrom (.behind passed) cs).diagnostics cs := by
  generalize start : Position.behind passed = here
  fun_induction readFrom here cs generalizing passed with
  | case1 here cs reading token after rest found _ following induction =>
      subst start
      have reports := Reading.reports_look_at passed cs
      rw [Reading.Reports, show (Reading.lookAt (.behind passed) cs).found = _ from found] at reports
      rcases reports with ⟨gap, text, rfl, noOpening, settled, single, position, behind, faults⟩
      have others := Surveyed.token noOpening settled single position (induction _ behind.symm)
      rw [← List.append_assoc, ← faults] at others
      rw [diagnostics, List.flatMap_cons, List.append_assoc]
      exact others
  | case2 here cs reading found =>
      subst start
      have reports := Reading.reports_look_at passed cs
      rw [Reading.Reports, show (Reading.lookAt (.behind passed) cs).found = _ from found] at reports
      rw [diagnostics, List.flatMap_nil, List.nil_append, show reading.faults = _ from reports.2]
      exact .ending reports.1
  | case3 here cs reading found =>
      subst start
      have reports := Reading.reports_look_at passed cs
      rw [Reading.Reports, show (Reading.lookAt (.behind passed) cs).found = _ from found] at reports
      rcases reports with ⟨gap, hidden, rfl, noOpening, unclosed, faults⟩
      rw [diagnostics, List.flatMap_nil, List.nil_append, show reading.faults = _ from faults]
      exact .unclosed noOpening unclosed

end Scan

namespace Surveyed

variable {passed rest : List Char} {tokens : List Token} {findings : Diagnostics}

/-- Each strange symbol and each brace to blame is reported, and nothing else. -/
theorem mem_iff (surveyed : Surveyed passed tokens findings rest)
    (outside : commentOpen passed = false) {finding : Diagnostic} :
    finding ∈ findings ↔
      (∃ token ∈ tokens, finding.BlamesSymbol token) ∨ finding.BlamesBrace passed rest := by
  induction surveyed with
  | @ending passed gap noOpening =>
      have found := (Diagnostic.blames_brace_outside outside noOpening [] finding).2
      rw [List.append_nil, or_iff_left Diagnostic.not_blames_brace_nil] at found
      rw [found]
      simp
  | @unclosed passed gap hidden noOpening unclosed =>
      rcases Diagnostic.blames_brace_outside outside noOpening ('{' :: hidden) finding with ⟨behind, found⟩
      have nothing := Diagnostic.blames_brace_inside (comment_open_opened behind) unclosed [] finding
      rw [List.append_nil, iff_false_right Diagnostic.not_blames_brace_nil] at nothing
      rw [found, Diagnostic.blames_brace_cons, or_iff_left nothing, List.mem_append,
        List.mem_singleton]
      simp [Diagnostic.BlamesBraceAt, behind, unclosed]
  | @token passed gap text rest token tokens findings noOpening settled single _ _ induction =>
      rcases Diagnostic.blames_brace_outside outside noOpening (text ++ rest) finding with
        ⟨behind, found⟩
      rcases settled.blames_brace behind rest finding with ⟨after, same⟩
      rw [List.append_assoc gap, found, same, List.mem_append, List.mem_append, induction after,
        Token.mem_strange_iff single, List.exists_mem_cons_iff]
      exact (or_congr_right or_assoc.symm).trans or_left_comm

/-- Among the findings those about symbols come from the tokens, each from its own. -/
theorem symbols (surveyed : Surveyed passed tokens findings rest) :
    findings.filter Diagnostic.namesSymbol = tokens.flatMap Token.strange := by
  have stray : ∀ {here : Position} {cs : List Char},
      (Reading.strayBraces here cs).filter Diagnostic.namesSymbol = [] := by
    intro here cs
    apply List.filter_eq_nil_iff.mpr
    intro finding member
    rw [Diagnostic.namesSymbol, Diagnostic.problem_of_stray_braces finding member]
    nofun
  induction surveyed with
  | ending => exact stray
  | unclosed =>
      rw [List.filter_append, stray]
      rfl
  | @token _ _ _ _ token _ _ _ _ single _ _ induction =>
      have own : token.strange.filter Diagnostic.namesSymbol = token.strange := by
        apply List.filter_eq_self.mpr
        intro finding member
        rcases (Token.mem_strange_iff single).mp member with ⟨-, c, -, rfl⟩
        rfl
      rw [List.filter_append, List.filter_append, stray, own, induction, List.nil_append,
        List.flatMap_cons]

theorem stands_behind (surveyed : Surveyed passed tokens findings rest) :
    ∀ finding ∈ findings, ∃ more, finding.StandsBehind (passed ++ more) := by
  have stray : ∀ {passed gap : List Char},
      ∀ finding ∈ Reading.strayBraces (.behind passed) gap,
        ∃ more, finding.StandsBehind (passed ++ more) := by
    intro passed gap finding member
    rcases Diagnostic.stands_behind_of_stray_braces member with ⟨front, -, -, -, place⟩
    exact ⟨front, place⟩
  induction surveyed with
  | ending => exact stray
  | @unclosed passed gap =>
      intro finding member
      rcases List.mem_append.mp member with member | member
      · exact stray finding member
      · rw [List.mem_singleton.mp member]
        exact ⟨gap, rfl, rfl⟩
  | @token passed gap text _ _ _ _ _ _ single position _ induction =>
      intro finding member
      rcases List.mem_append.mp member with member | member
      · exact stray finding member
      · rcases List.mem_append.mp member with member | member
        · rcases (Token.mem_strange_iff single).mp member with ⟨-, c, -, rfl⟩
          rw [position]
          exact ⟨gap, rfl, rfl⟩
        · rcases induction finding member with ⟨more, place⟩
          exact ⟨gap ++ text ++ more, by simpa using place⟩

theorem ordered (surveyed : Surveyed passed tokens findings rest) :
    findings.Pairwise Diagnostic.Precedes := by
  induction surveyed with
  | @ending passed gap => exact Diagnostic.ordered_stray_braces passed gap
  | @unclosed passed gap =>
      apply List.pairwise_append.mpr
      refine ⟨Diagnostic.ordered_stray_braces passed gap, List.pairwise_singleton _ _, ?_⟩
      intro stray member finding last
      rw [List.mem_singleton.mp last]
      apply Diagnostic.precedes_of_stray_braces member []
      rw [List.append_nil]
      exact ⟨rfl, rfl⟩
  | @token passed gap text _ token _ findings _ settled single position others induction =>
      have atToken : ∀ finding ∈ token.strange, finding.StandsBehind (passed ++ gap) := by
        intro finding member
        rcases (Token.mem_strange_iff single).mp member with ⟨-, c, -, rfl⟩
        rw [position]
        exact ⟨rfl, rfl⟩
      have alone : token.strange.Pairwise Diagnostic.Precedes := by
        by_cases unknown : token.kind = .unknown
        · rcases single unknown with ⟨c, symbol⟩
          rw [Token.strange_of_symbol unknown symbol]
          exact List.pairwise_singleton _ _
        · rw [Token.strange_of_known unknown]
          exact .nil
      apply List.pairwise_append.mpr
      refine ⟨Diagnostic.ordered_stray_braces passed gap, List.pairwise_append.mpr
        ⟨alone, induction, ?_⟩, ?_⟩
      · intro strange member later found
        rcases others.stands_behind later found with ⟨more, place⟩
        rw [List.append_assoc (passed ++ gap)] at place
        exact (atToken strange member).precedes place
          (List.append_ne_nil_of_left_ne_nil settled.ne_nil more)
      · intro stray member later found
        rcases List.mem_append.mp found with found | found
        · apply Diagnostic.precedes_of_stray_braces member []
          rw [List.append_nil]
          exact atToken later found
        · rcases others.stands_behind later found with ⟨more, place⟩
          rw [List.append_assoc (passed ++ gap)] at place
          exact Diagnostic.precedes_of_stray_braces member _ place

theorem unclosed_last (surveyed : Surveyed passed tokens findings rest) {finding : Diagnostic}
    (member : finding ∈ findings) (unclosed : finding.problem = .lexical .unclosedComment) :
    ∃ earlier, findings = earlier ++ [finding] := by
  have notStray : ∀ {here : Position} {cs : List Char}, finding ∉ Reading.strayBraces here cs := by
    intro here cs stray
    rw [Diagnostic.problem_of_stray_braces finding stray] at unclosed
    cases unclosed
  induction surveyed with
  | ending => exact absurd member notStray
  | unclosed =>
      rcases List.mem_append.mp member with member | member
      · exact absurd member notStray
      · rw [List.mem_singleton.mp member]
        exact ⟨_, rfl⟩
  | @token passed gap _ _ token _ _ _ _ single _ _ induction =>
      rcases List.mem_append.mp member with member | member
      · exact absurd member notStray
      · rcases List.mem_append.mp member with member | member
        · rcases (Token.mem_strange_iff single).mp member with ⟨-, c, -, rfl⟩
          cases unclosed
        · rcases induction member with ⟨earlier, rfl⟩
          exact ⟨Reading.strayBraces (.behind passed) gap ++ (token.strange ++ earlier), by simp⟩

end Surveyed

namespace Scan

variable (source : String)

theorem surveyed_of_text : Surveyed [] ((ofText source).items.map Item.token)
    (ofText source).diagnostics source.toList :=
  surveyed_read_from [] source.toList

theorem mem_diagnostics_iff {finding : Diagnostic} : finding ∈ (ofText source).diagnostics ↔
    (∃ token ∈ (ofText source).tokens, finding.BlamesSymbol token) ∨
      finding.BlamesClosing source.toList ∨ finding.BlamesOpening source.toList := by
  rw [(surveyed_of_text source).mem_iff rfl, Diagnostic.blames_brace_iff]
  apply or_congr_left
  rcases ended_read_from .start source.toList with ⟨place, ended⟩
  have real : ¬ finding.BlamesSymbol (ofText source).ending.token := by
    rintro ⟨unknown, -⟩
    rw [show (ofText source).ending.token = _ from ended] at unknown
    cases unknown
  constructor
  · rintro ⟨token, member, blames⟩
    exact ⟨token, List.mem_append_left _ member, blames⟩
  · rintro ⟨token, member, blames⟩
    rcases List.mem_append.mp member with member | member
    · exact ⟨token, member, blames⟩
    · rw [List.mem_singleton.mp member] at blames
      exact absurd blames real

theorem forall₂_symbols : List.Forall₂ Diagnostic.BlamesSymbol
    ((ofText source).diagnostics.filter Diagnostic.namesSymbol)
    ((ofText source).tokens.filter fun token => token.kind = .unknown) := by
  rcases ended_read_from .start source.toList with ⟨place, ended⟩
  have noMark : [(ofText source).ending.token].filter (fun token => token.kind = .unknown) = [] := by
    rw [show (ofText source).ending.token = _ from ended]
    rfl
  rw [(surveyed_of_text source).symbols, tokens, List.filter_append, noMark, List.append_nil]
  apply Token.forall₂_strange
  intro token member
  rcases List.mem_map.mp member with ⟨item, listed, rfl⟩
  exact is_single_of_read_from .start source.toList item listed

end Scan

end TinyPascal
