import TinyPascal.Proofs.Recovery.Nested

/-!
# A broken header leaves the rest alone

The header of a program that was read without error, or of a procedure at any depth in it, is
replaced by other tokens. The tree then has another name and other parameters there, and nothing
else in it changes.
-/

namespace TinyPascal

set_option autoImplicit false

theorem Kind.ends_header_eq_false_iff {kind : Kind} :
    kind.endsHeader = false ↔ kind ∉ [Kind.varKw, .procedureKw, .beginKw] := by
  cases kind <;> decide

namespace Step

open Phrase

theorem reads_program_behind {n : Nat} {script : Script} {rest : List Token} {whole : Program}
    (read : WholeProgram unbroken n script rest whole) (more : rest ≠ []) :
    ∃ header after : List Token, script.tokens = header ++ after ∧
      Grammar.Derives Grammar.Ebnf.programHeader (header.map Token.kind) ∧
      faces Kind.endsHeader (after ++ rest) = true ∧
      ∀ (garbage : List Token) (outcome : Diagnostics → Token × Token → Prop),
        (∀ m, (programHeader : Step m (Token × Token)).Reads garbage (after ++ rest) outcome) →
        ∀ m, (program m).Reads (garbage ++ after) rest fun errors value =>
          ∃ keyword name, outcome errors (keyword, name) ∧
            value = { whole with keyword := keyword, name := name } := by
  cases read with
  | @intro keyword name semicolon opening vars inner ending _ locals procedures list isProgram isName
      closes declared defined done =>
      have closed := sections_start declared defined (body_of_starts done)
      refine ⟨[keyword, name, semicolon], vars.tokens ++ (inner.tokens ++ ending.tokens), by simp,
        Grammar.derives_program_header.mpr (by simp [isProgram, isName, closes]), by simpa using closed,
        ?_⟩
      intro garbage outcome reads m
      have declare : (varSection : Step m (Option Variables)).Reads vars.tokens
          (inner.tokens ++ ending.tokens ++ rest) (just locals) := by
        rw [List.append_assoc]
        exact reads_var_section rfl (by simp [more]) declared
      apply (reads_program (reads m) declare (reads_procedures rfl (by simp [more]) defined)
        (reads_program_body rfl more done)).weaken
      rintro _ _ ⟨errors, _, _, keyword, name, _, _, rfl, said, ⟨rfl, rfl⟩, ⟨rfl, rfl⟩, rfl⟩
      exact ⟨keyword, name, (List.append_nil errors).symm ▸ said, rfl⟩

end Step

namespace Parse

open Phrase ParseState Grammar.Ebnf

/-- Take a program that was read without error, and put other tokens in the place of its header,
without `var`, `procedure` and `begin` among them and without a header in front of others of them.
Then nothing but the words of the header changes in the tree, and unless the tokens are a header
again, one error of the parser is reported. The same is true of the header of a procedure, at any
depth, behind its keyword. There no header may stand in front of others even without its name. -/
theorem broken_header_is_passed_over (source : String) (clean : (ofText source).hadError = false) :
    (∃ header after : List Token, (Scan.ofText source).words = header ++ after ∧
      Grammar.Derives programHeader (header.map Token.kind) ∧
      ∀ (garbage : List Token) (broken : String),
        (∀ token ∈ garbage, token.kind ∉ [Kind.varKw, .procedureKw, .beginKw]) →
        programHeader.OnlyWhole garbage →
        (Scan.ofText broken).words.map Token.bare = (garbage ++ after).map Token.bare →
        (∃ keyword name, (ofText broken).program.bare =
          ({ (ofText source).program with keyword := keyword, name := name } : Program).bare) ∧
        (Grammar.Derives programHeader (garbage.map Token.kind) →
          (ofText broken).syntaxErrors.length = 0) ∧
        (¬ Grammar.Derives programHeader (garbage.map Token.kind) →
          (ofText broken).syntaxErrors.length = 1)) ∧
    ∀ (i : Nat) (path : List Nat) (found : Program),
      (ofText source).program.at? (i :: path) = some found →
      ∃ before header after : List Token,
        (Scan.ofText source).words = before ++ found.keyword :: (header ++ after) ∧
        Grammar.Derives procedureHeader (header.map Token.kind) ∧
        ∀ (garbage : List Token) (broken : String),
          (∀ token ∈ garbage, token.kind ∉ [Kind.varKw, .procedureKw, .beginKw]) →
          looseHeader.OnlyWhole garbage →
          (Scan.ofText broken).words.map Token.bare =
            (before ++ found.keyword :: (garbage ++ after)).map Token.bare →
          (∃ header, (ofText broken).program.bare =
            ((ofText source).program.modifyAt (Program.withHeader header) (i :: path)).bare) ∧
          (¬ Grammar.Derives procedureHeader (garbage.map Token.kind) →
            (ofText broken).syntaxErrors ≠ []) := by
  rcases program_of_clean clean with ⟨n, script, others, read, words⟩
  constructor
  · rcases Step.reads_program_behind read (by simp) with
      ⟨header, after, split, isHeader, closed, change⟩
    refine ⟨header, after ++ others, by simp [words, split], isHeader, ?_⟩
    intro garbage broken free only brokenWords
    have reads : ∀ n, (Step.programHeader : Step n (Token × Token)).Reads garbage
        (after ++ (others ++ [.endOfFile .start])) fun errors _ =>
          (Grammar.Derives programHeader (garbage.map Token.kind) → errors.length = 0) ∧
          (¬ Grammar.Derives programHeader (garbage.map Token.kind) → errors.length = 1) := by
      intro n
      apply Step.reads_program_header_counted closed _ only
      intro token member
      exact Kind.ends_header_eq_false_iff.mpr (free token member)
    have sameWords : (Scan.ofText broken).words.map Token.bare =
        ((garbage ++ after) ++ others).map Token.bare := by
      rw [brokenWords, List.append_assoc]
    rcases of_reads (change garbage _ reads) sameWords with
      ⟨errors, value, ⟨keyword, name, said, rfl⟩, programs, count⟩
    rw [count]
    exact ⟨⟨keyword, name, programs⟩, said⟩
  · intro i path found leads
    rcases reheaded_program read (by simp) leads with
      ⟨before, header, after, split, isHeader, closed, change⟩
    refine ⟨before, header, after ++ others, by simp [words, split], isHeader, ?_⟩
    intro garbage broken free only brokenWords
    have reads : ∀ n, (Step.procedureHeader : Step n (Token × Option Variables)).Reads garbage
        (after ++ (others ++ [.endOfFile .start])) fun errors _ =>
          errors = [] → Grammar.Derives procedureHeader (garbage.map Token.kind) := by
      intro n
      apply Step.reads_procedure_header closed _ only
      intro token member
      exact Kind.ends_header_eq_false_iff.mpr (free token member)
    have sameWords : (Scan.ofText broken).words.map Token.bare =
        ((before ++ found.keyword :: (garbage ++ after)) ++ others).map Token.bare := by
      rw [brokenWords]
      simp
    rcases of_reads (change garbage _ reads) sameWords with
      ⟨errors, value, ⟨header', said, rfl⟩, programs, count⟩
    refine ⟨⟨header', programs⟩, ?_⟩
    intro other none
    rw [none] at count
    exact other (said (List.length_eq_zero_iff.mp count.symm))

/-- A header ends with its semicolon, even one without a name. -/
theorem semicolon_mem_of_loose_header {text : List Kind} (derived : Grammar.Derives looseHeader text) :
    Kind.semicolon ∈ text := by
  rcases derived.means fun _ _ => Grammar.derived_of_means with
    ⟨_, _, rfl, -, _, _, rfl, -, _, closes, rfl⟩
  rw [List.mem_singleton.mp closes]
  simp

theorem length_of_procedure_header {header after : List Token}
    (derived : Grammar.Derives procedureHeader (header.map Token.kind))
    (bare : ((header ++ after).map Token.kind)[1]? = some .semicolon) : header.length = 2 := by
  rcases derived.means fun _ _ => Grammar.derived_of_means with
    ⟨_, _, same, ⟨_, _, rfl⟩, params, _, rfl, given, _, _, rfl⟩
  rw [← List.length_map Token.kind, same]
  rcases given with rfl | ⟨_, _, rfl, ⟨_, _, rfl, ⟨_, opens, rfl⟩, _⟩, _⟩
  · rfl
  · rw [List.map_append, same, List.mem_singleton.mp opens] at bare
    cases bare

/-- A parenthesis in the place of a name, and a procedure without the semicolon of its header. -/
theorem broken_header_is_passed_over_twice :
    ∃ source first second : String, (ofText source).hadError = false ∧
      (∃ keyword name, (ofText first).program.bare =
        ({ (ofText source).program with keyword := keyword, name := name } : Program).bare) ∧
      (ofText first).syntaxErrors.length = 1 ∧
      (∃ header, (ofText second).program.bare =
        ((ofText source).program.modifyAt (Program.withHeader header) [0]).bare) ∧
      (ofText second).syntaxErrors ≠ [] := by
  let source := "program p; procedure q; begin end; begin x := 1 end."
  let first := "program ( ; procedure q; begin end; begin x := 1 end."
  let second := "program p; procedure q begin end; begin x := 1 end."
  have clean : (ofText source).hadError = false := by decide +kernel
  have kinds : (Scan.ofText source).words.map Token.kind = [.programKw, .ident, .semicolon,
      .procedureKw, .ident, .semicolon, .beginKw, .endKw, .semicolon, .beginKw, .ident, .assign,
      .intLit, .endKw, .dot] := by decide +kernel
  have keywords : (ofText source).program.procedures.map (fun found => found.keyword.kind) =
      [.procedureKw] := by decide +kernel
  rcases List.map_eq_cons_iff.mp keywords with ⟨found, others, procedures, isProcedure, -⟩
  have leads : (ofText source).program.at? [0] = some found := by
    rw [Program.at?, procedures]
    rfl
  rcases broken_header_is_passed_over source clean with ⟨ofProgram, ofProcedure⟩
  rcases ofProgram with ⟨header, after, words, isHeader, replaced⟩
  have length : header.length = 3 := by
    rw [← List.length_map Token.kind, Grammar.derives_program_header.mp isHeader]
    rfl
  have behind : after = (Scan.ofText source).words.drop 3 := by
    rw [words, ← length, List.drop_left]
  have whole : programHeader.OnlyWhole
      [.ofText .programKw "program", .ofText .lparen "(", .ofText .semicolon ";"] := by
    intro front back split derived
    have lengths := congrArg List.length split
    rw [List.length_append, ← @List.length_map _ _ front Token.kind,
      Grammar.derives_program_header.mp derived] at lengths
    exact List.length_eq_zero_iff.mp (Nat.add_left_cancel lengths).symm
  rcases replaced _ first (by decide) whole (by rw [behind]; decide +kernel) with ⟨tree, -, one⟩
  rcases ofProcedure 0 [] found leads with ⟨before, header', after', words', isHeader', replaced'⟩
  -- The fourth token is the only `procedure`, and its header has no parentheses.
  have place : before.length = 3 := by
    apply length_of_split words'
    rw [isProcedure]
    decide +kernel
  have split : (Scan.ofText source).words.drop 3 = found.keyword :: (header' ++ after') := by
    rw [words', ← place, List.drop_left]
  have length' : header'.length = 2 := by
    apply @length_of_procedure_header header' after' isHeader'
    have second : (((Scan.ofText source).words.drop 3).map Token.kind)[2]? = some .semicolon := by
      rw [List.map_drop, kinds]
      rfl
    rw [split] at second
    exact second
  have front : before = (Scan.ofText source).words.take 3 := by
    rw [words', ← place, List.take_left]
  have keyword : [found.keyword] = ((Scan.ofText source).words.drop 3).take 1 := by
    rw [split]
    rfl
  have behind' : after' = ((Scan.ofText source).words.drop 3).drop 3 := by
    rw [split, List.drop_succ_cons, ← length', List.drop_left]
  have unfinished : Kind.semicolon ∉ [Token.ofText .ident "q"].map Token.kind := by decide
  have nameless : looseHeader.OnlyWhole [.ofText .ident "q"] := by
    intro front back split derived
    apply absurd _ unfinished
    rw [split, List.map_append]
    exact List.mem_append_left _ (semicolon_mem_of_loose_header derived)
  have spelled : (Scan.ofText second).words.map Token.bare =
      (before ++ ([found.keyword] ++ ([Token.ofText .ident "q"] ++ after'))).map Token.bare := by
    rw [front, keyword, behind']
    decide +kernel
  rcases replaced' [.ofText .ident "q"] second (by decide) nameless spelled with ⟨tree', some⟩
  refine ⟨source, first, second, clean, tree, one ?_, tree', some ?_⟩
  · intro derived
    cases Grammar.derives_program_header.mp derived
  · intro derived
    exact unfinished (semicolon_mem_of_loose_header (Grammar.loose_header_of_procedure_header derived))

end Parse

end TinyPascal
