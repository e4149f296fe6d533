import TinyPascal.Proofs.Recovery.Headers

/-!
# Another header for a procedure at any depth

A procedure is found by a path, which says at each level which of the procedures to enter. What
stands in the place of its header matters to nothing else in the tree.
-/

namespace TinyPascal

set_option autoImplicit false

namespace Program

def at? : List Nat → Program → Option Program
  | [], program => some program
  | i :: path, program => program.procedures[i]?.bind (at? path)

def modifyAt (change : Program → Program) : List Nat → Program → Program
  | [], program => change program
  | i :: path, program =>
      { program with procedures := program.procedures.modify i (modifyAt change path) }

def withHeader (header : Token × Option Variables) (program : Program) : Program :=
  { program with name := header.1, params := header.2 }

end Program

namespace Phrase

theorem procedure_header_derived {script : Script} {rest : List Token}
    {header : Token × Option Variables} (read : ProcedureHeader script rest header) :
    Grammar.Derives Grammar.Ebnf.procedureHeader script.kinds := by
  cases read with
  | @intro name semicolon given rest params isName listed closes =>
      have tail : HeaderTail name (given ++ [.read semicolon]) rest (name, params) :=
        ⟨given, [.read semicolon], params, rfl, listed, [.read semicolon], [], (), rfl,
          ⟨semicolon, [], rfl, decide_eq_true closes, rfl, rfl⟩, rfl, rfl⟩
      rw [Script.kinds_read, isName]
      exact Grammar.procedure_header_of_tail (header_tail_derived tail)

/-- The header of `found` stands in `text`. Whatever is read in its place as a header with some
`outcome`, `target` is so of the changed text and this outcome. -/
def Reheaded (found : Program) (text rest : List Token)
    (target : List Token → (Diagnostics → Token × Option Variables → Prop) → Prop) : Prop :=
  ∃ before header after : List Token, text = before ++ found.keyword :: (header ++ after) ∧
    Grammar.Derives Grammar.Ebnf.procedureHeader (header.map Token.kind) ∧
    faces Kind.endsHeader (after ++ rest) = true ∧
    ∀ (garbage : List Token) (outcome : Diagnostics → Token × Option Variables → Prop),
      (∀ n, (Step.procedureHeader : Step n (Token × Option Variables)).Reads garbage (after ++ rest)
        outcome) →
      target (before ++ found.keyword :: (garbage ++ after)) outcome

theorem Reheaded.within {found : Program} {front text back rest : List Token}
    {target outerTarget : List Token → (Diagnostics → Token × Option Variables → Prop) → Prop}
    (inner : Reheaded found text (back ++ rest) target)
    (outer : ∀ other outcome, (∀ behind, SameHead (text ++ behind) (other ++ behind)) →
      target other outcome → outerTarget (front ++ (other ++ back)) outcome) :
    Reheaded found (front ++ (text ++ back)) rest outerTarget := by
  rcases inner with ⟨before, header, after, rfl, isHeader, closed, change⟩
  refine ⟨front ++ before, header, after ++ back, by simp, isHeader, by simpa using closed, ?_⟩
  intro garbage outcome reads
  have same : (front ++ before) ++ found.keyword :: (garbage ++ (after ++ back)) =
      front ++ ((before ++ found.keyword :: (garbage ++ after)) ++ back) := by simp
  rw [same]
  apply outer
  · intro behind
    simp only [List.append_assoc]
    exact (SameHead.cons _ _ _).append before
  · apply change
    intro n
    rw [← List.append_assoc]
    exact reads n

/-- Along `path` a procedure behind its keyword can have another header. -/
def ReheadsAlong (path : List Nat) : Prop :=
  ∀ (n : Nat) (keyword : Token) (script : Script) (rest : List Token) (whole found : Program),
    ProcedureOf (Procedures unbroken n) (Body unbroken n) keyword script rest whole → rest ≠ [] →
    whole.at? path = some found →
    Reheaded found (keyword :: script.tokens) rest fun text outcome =>
      ∃ behind, text = keyword :: behind ∧ ∀ m,
        (Step.procedure (Step.procedures m) keyword : Step m Program).Reads behind rest
          fun errors value => ∃ header, outcome errors header ∧
            value = whole.modifyAt (Program.withHeader header) path

variable {n : Nat} {path : List Nat} {script : Script} {rest : List Token} {found : Program}

theorem reheaded_series (along : ReheadsAlong path) {values : List Program}
    (series : Series (· = .procedureKw) (ProcedureOf (Procedures unbroken n) (Body unbroken n))
      script rest values) (more : rest ≠ []) {i : Nat} {whole : Program}
    (listed : values[i]? = some whole) (leads : whole.at? path = some found) :
    Reheaded found script.tokens rest fun text outcome => ∀ (m k : Nat) (fits : k ≤ m + 1),
      (Step.procedureItems m k fits).Reads text rest fun errors row => ∃ header,
        outcome errors header ∧
          row.items = values.modify i (Program.modifyAt (Program.withHeader header) path) := by
  induction series generalizing i with
  | stop => cases listed
  | @more keyword front back rest first others opens head tail induction =>
      rw [Script.tokens_read, Script.tokens_append]
      cases i with
      | zero =>
          rcases Option.some.inj listed with rfl
          have inner := along n keyword front _ first found head (by simp [more]) leads
          apply @Reheaded.within found [] (keyword :: front.tokens) back.tokens rest _ _ inner
          rintro _ outcome same ⟨behind, rfl, reads⟩ m k fits
          have item : (Rule.ofStep (Step.procedure (Step.procedures m) keyword)).run.Reads behind
              (back.tokens ++ rest) fun errors value => ∃ read, value = some read ∧ ∃ header,
                outcome errors header ∧ read = first.modifyAt (Program.withHeader header) path :=
            (reads m).map some fun errors value said => ⟨value, rfl, said⟩
          apply (Step.reads_row_more rfl opens item
            (fun k fits => Step.reads_procedure_items rfl more tail fits) k fits).weaken
          rintro _ _ ⟨errors, _, _, _, rfl, ⟨header, said, rfl⟩, ⟨rfl, rfl⟩, rfl⟩
          exact ⟨header, (List.append_nil errors).symm ▸ said, rfl⟩
      | succ i =>
          rw [← List.append_nil back.tokens]
          apply @Reheaded.within found (keyword :: front.tokens) back.tokens [] rest _ _
            (induction more listed)
          intro other outcome same reads m k fits
          rw [List.append_nil]
          have item : (Rule.ofStep (Step.procedure (Step.procedures m) keyword)).run.Reads front.tokens
              (other ++ rest) fun errors value => ∃ read, value = some read ∧ Step.just first errors read :=
            (Step.reads_whole_procedure (same rest) (by simp [more]) head).map some
              fun errors value said => ⟨value, rfl, said⟩
          apply (Step.reads_row_more rfl opens item (fun k fits => reads m k fits) k fits).weaken
          rintro _ _ ⟨_, errors, _, row, rfl, ⟨rfl, rfl⟩, ⟨header, said, same⟩, rfl⟩
          exact ⟨header, said, congrArg (List.cons _) same⟩

theorem reheaded_procedures (along : ReheadsAlong path) {values : List Program}
    (read : Procedures unbroken n script rest values) (more : rest ≠ []) {i : Nat} {whole : Program}
    (listed : values[i]? = some whole) (leads : whole.at? path = some found) :
    Reheaded found script.tokens rest fun text outcome => ∀ m,
      (Step.procedures m).Reads text rest fun errors values' => ∃ header, outcome errors header ∧
        values' = values.modify i (Program.modifyAt (Program.withHeader header) path) := by
  cases n with
  | zero => exact read.elim
  | succ n =>
      have rows := reheaded_series along read more listed leads
      rw [← List.append_nil script.tokens]
      apply @Reheaded.within found [] script.tokens [] rest _ _ rows
      intro other outcome _ reads m
      rw [List.nil_append, List.append_nil]
      cases m with
      | zero =>
          intro s bounded
          exact absurd bounded (Nat.not_lt_zero _)
      | succ m => exact (reads m (m + 1) (Nat.le_refl _)).map Row.items fun _ _ said => said

theorem reheads_along (path : List Nat) : ReheadsAlong path := by
  induction path with
  | nil =>
      intro n keyword script rest whole found read more leads
      rcases Option.some.inj leads with rfl
      cases read with
      | @intro header vars inner ending _ name opening params locals procedures list head declared
          defined done =>
          have closed := sections_start declared defined (body_of_starts done)
          refine ⟨[], header.tokens, vars.tokens ++ (inner.tokens ++ ending.tokens), by simp,
            procedure_header_derived head, by simpa using closed, ?_⟩
          intro garbage outcome reads
          refine ⟨_, rfl, ?_⟩
          intro m
          have declare : (Step.varSection : Step m (Option Variables)).Reads vars.tokens
              (inner.tokens ++ ending.tokens ++ rest) (Step.just locals) := by
            rw [List.append_assoc]
            exact Step.reads_var_section rfl (by simp [more]) declared
          apply (Step.reads_procedure (reads m) declare
            (Step.reads_procedures rfl (by simp [more]) defined)
            (Step.reads_procedure_body rfl more done)).weaken
          rintro _ _ ⟨errors, _, name, params, _, rfl, said, ⟨rfl, rfl⟩, rfl⟩
          exact ⟨(name, params), (List.append_nil errors).symm ▸ said, rfl⟩
  | cons i path along =>
      intro n keyword script rest whole found read more leads
      cases read with
      | @intro header vars inner ending _ name opening params locals procedures list head declared
          defined done =>
          rcases Option.bind_eq_some_iff.mp leads with ⟨next, listed, leads⟩
          have inside := reheaded_procedures along defined (by simp [more]) listed leads
          have split : keyword :: (header ++ (vars ++ (inner ++ ending))).tokens =
              (keyword :: (header.tokens ++ vars.tokens)) ++ (inner.tokens ++ ending.tokens) := by simp
          rw [split]
          apply inside.within
          intro other outcome same reads
          refine ⟨header.tokens ++ (vars.tokens ++ (other ++ ending.tokens)), by simp, ?_⟩
          intro m
          have sameBehind := same (ending.tokens ++ rest)
          have head' : (Step.procedureHeader : Step m (Token × Option Variables)).Reads header.tokens
              (vars.tokens ++ (other ++ ending.tokens) ++ rest) (Step.just (name, params)) := by
            apply Step.reads_named_header _ (by simp [more]) head
            rw [List.append_assoc, List.append_assoc]
            exact sameBehind.append _
          have declare : (Step.varSection : Step m (Option Variables)).Reads vars.tokens
              (other ++ ending.tokens ++ rest) (Step.just locals) := by
            apply Step.reads_var_section _ (by simp [more]) declared
            rw [List.append_assoc]
            exact sameBehind
          apply (Step.reads_procedure head' declare (reads m)
            (Step.reads_procedure_body rfl more done)).weaken
          rintro _ _ ⟨_, errors, _, _, _, rfl, ⟨rfl, same⟩, ⟨header, said, rfl⟩, rfl⟩
          cases same
          exact ⟨header, said, rfl⟩

theorem reheaded_program {whole : Program} (read : WholeProgram unbroken n script rest whole)
    (more : rest ≠ []) {i : Nat} (leads : whole.at? (i :: path) = some found) :
    Reheaded found script.tokens rest fun text outcome => ∀ m,
      (Step.program m).Reads text rest fun errors value => ∃ header, outcome errors header ∧
        value = whole.modifyAt (Program.withHeader header) (i :: path) := by
  cases read with
  | @intro keyword name semicolon opening vars inner ending _ locals procedures list isProgram isName
      closes declared defined done =>
      rcases Option.bind_eq_some_iff.mp leads with ⟨next, listed, leads⟩
      have inside := reheaded_procedures (reheads_along path) defined (by simp [more]) listed leads
      have split : Script.tokens (.read keyword :: .read name :: .read semicolon ::
          (vars ++ (inner ++ ending))) =
          ([keyword, name, semicolon] ++ vars.tokens) ++ (inner.tokens ++ ending.tokens) := by simp
      rw [split]
      apply inside.within
      intro other outcome same reads m
      have declare : (Step.varSection : Step m (Option Variables)).Reads vars.tokens
          (other ++ ending.tokens ++ rest) (Step.just locals) := by
        apply Step.reads_var_section _ (by simp [more]) declared
        rw [List.append_assoc]
        exact same _
      rw [List.append_assoc]
      apply (Step.reads_program (Step.reads_program_header isProgram isName closes) declare (reads m)
        (Step.reads_program_body rfl more done)).weaken
      rintro _ _ ⟨_, _, errors, _, _, _, _, rfl, ⟨rfl, same⟩, ⟨rfl, rfl⟩, ⟨header, said, rfl⟩, rfl⟩
      cases same
      exact ⟨header, said, rfl⟩

end Phrase

end TinyPascal
