import TinyPascal.Proofs.Recording.Faithful
import TinyPascal.Proofs.Spelling.Strange

/-!
# Scanning the recorded text

Whatever a parse has consumed, of a broken text too, is found again in the text that is put together
from its record. Strange symbols are reported again, and nothing else is.
-/

namespace TinyPascal

set_option autoImplicit false

namespace Parse

variable (source : String)

theorem recorded_tokens_real : ∀ token ∈ (ofText source).recorder.tokens,
    token.kind ≠ .comment ∧ token.kind ≠ .eof := by
  intro token member
  rcases List.mem_filter.mp ((recorded_tokens_first source).subset member) with ⟨scanned, noComment⟩
  exact ⟨by simpa using noComment, Scan.real_items source token scanned⟩

theorem source_text_eq : (ofText source).recorder.sourceText =
    " ".intercalate ((ofText source).recorder.tokens.map Token.lexeme) := by
  rw [Recorder.sourceText, List.filter_eq_self.mpr]
  intro token member
  simpa using (recorded_tokens_real source token member).2

theorem shows_source_text : (Scan.ofText (ofText source).recorder.sourceText).Shows
    ((ofText source).recorder.tokens.map Token.bare) := by
  rw [source_text_eq]
  apply shows_joined
  intro token member
  exact Scan.is_detached_of_words token ((recorded_tokens_first source).subset member)

/-- The text of a record holds the recorded tokens and nothing else. Scanning it gives them in their
order with the end-of-file mark behind them, and no comment. All that is reported are the
strange symbols among them, each once and in order. -/
theorem recorded_text_scans_back :
    ∃ (tokens : List Token) (place : Position),
      (Scan.ofText (ofText source).recorder.sourceText).tokens = tokens ++ [.endOfFile place] ∧
      tokens.map Token.bare = (ofText source).recorder.tokens.map Token.bare ∧
      (∀ token ∈ tokens, token.kind ≠ .comment ∧ token.kind ≠ .eof) ∧
      (Scan.ofText (ofText source).recorder.sourceText).truncated = false ∧
      List.Forall₂ Diagnostic.BlamesSymbol
        (Scan.ofText (ofText source).recorder.sourceText).diagnostics
        (tokens.filter fun token => token.kind = .unknown) := by
  have shows := shows_source_text source
  have found : ((Scan.ofText (ofText source).recorder.sourceText).items.map Item.token).map
      Token.bare = (ofText source).recorder.tokens.map Token.bare := by
    rw [List.map_map]
    exact shows.words
  rcases Scan.ended_read_from .start (ofText source).recorder.sourceText.toList with ⟨place, ended⟩
  refine ⟨_, place, congrArg (_ ++ [·]) ended, found, ?_, shows.whole, ?_⟩
  · intro token member
    have listed := List.mem_map_of_mem (f := Token.bare) member
    rw [found] at listed
    rcases List.mem_map.mp listed with ⟨recorded, consumed, same⟩
    rw [← token.kind_bare, ← same, recorded.kind_bare]
    exact recorded_tokens_real source recorded consumed
  · rw [shows.diagnostics_eq]
    apply Token.forall₂_strange
    intro token member
    rcases List.mem_map.mp member with ⟨item, listed, rfl⟩
    exact Scan.is_single_of_read_from _ _ item listed

/-- A comment and a stray brace in a broken text are not recorded, and the strange symbol is reported
where it now stands. -/
theorem recorded_text_scans_back_with_strange_symbol :
    ∃ (source : String) (tokens : List Token) (finding : Diagnostic),
      (ofText source).hadError = true ∧
      (ofText source).recorder.sourceText = "program p ; begin x := ? 1.2 . 3 end ." ∧
      tokens.map Token.bare = (ofText source).recorder.tokens.map Token.bare ∧
      (Scan.ofText (ofText source).recorder.sourceText).diagnostics = [finding] ∧
      finding.BlamesSymbol ⟨.unknown, "?", ⟨1, 24, 23⟩⟩ := by
  let source := "program p;begin x:=?1.2.3\x7bc\x7d \x7d end. zz"
  have lexemes : (ofText source).recorder.tokens.map Token.lexeme =
      ["program", "p", ";", "begin", "x", ":=", "?", "1.2", ".", "3", "end", "."] := by
    decide +kernel
  have text : (ofText source).recorder.sourceText = "program p ; begin x := ? 1.2 . 3 end ." := by
    rw [source_text_eq, lexemes]
    rfl
  rcases recorded_text_scans_back source with ⟨tokens, place, scanned, same, -, -, reported⟩
  have symbols : (tokens ++ [Token.endOfFile place]).filter (fun token => token.kind = .unknown) =
      [⟨.unknown, "?", ⟨1, 24, 23⟩⟩] := by
    rw [← scanned, text]
    decide +kernel
  rw [List.filter_append] at symbols
  change _ ++ [] = _ at symbols
  rw [List.append_nil] at symbols
  rw [symbols] at reported
  rcases List.forall₂_cons_right_iff.mp reported with ⟨finding, others, blames, none, all⟩
  rw [List.forall₂_nil_right_iff.mp none] at all
  exact ⟨source, tokens, finding, by decide +kernel, text, same, all, blames⟩

end Parse

end TinyPascal
