import Mathlib.Data.List.GetD
import TinyPascal.Proofs.Recording.Faithful
import TinyPascal.Proofs.Spelling.Survey

/-!
# A lexer in the hands of a client

A client asks a lexer for tokens, takes the faults found so far, and asks whether the text was cut
short, in whatever order. What a lexer has not delivered yet is the scan of the text in front
of it. Tokens move from there to the client, and faults on their way wait in between, so nothing
hangs on when they are taken.
-/

namespace TinyPascal

set_option autoImplicit false

namespace Scan

/-- The token at a place in the row of a scan. Behind its last token the end-of-file mark is
repeated without end. -/
def tokenAt (scan : Scan) (i : Nat) : Token := scan.tokens.getD i scan.ending.token

theorem token_at_of_nil {scan : Scan} (nothing : scan.items = []) (i : Nat) :
    scan.tokenAt i = scan.ending.token := by
  rw [tokenAt, tokens, nothing]
  cases i <;> rfl

theorem token_at_of_le {scan : Scan} {i : Nat} (behind : scan.items.length ≤ i) :
    scan.tokenAt i = scan.ending.token := by
  have past : (scan.items.map Item.token).length ≤ i := by rwa [List.length_map]
  rw [tokenAt, tokens, List.getD_append_right _ _ _ _ past]
  cases i - (scan.items.map Item.token).length <;> rfl

theorem token_at_of_lt {scan : Scan} {i : Nat} (inside : i < scan.items.length) :
    scan.tokenAt i ∈ scan.items.map Item.token := by
  have short : i < (scan.items.map Item.token).length := by rwa [List.length_map]
  rw [tokenAt, tokens, List.getD_append _ _ _ _ short, List.getD_eq_getElem _ _ short]
  exact List.getElem_mem short

end Scan

namespace Lexer

/-- What a client may ask of a lexer. -/
inductive Call where
  | next
  | takeDiagnostics
  | isTruncated
deriving DecidableEq, Repr

inductive Answer where
  | token (word : Token)
  | batch (found : Diagnostics)
  | verdict (truncated : Bool)
deriving DecidableEq, Repr

def Answer.token? : Answer → Option Token
  | .token word => some word
  | _ => none

def Answer.batch? : Answer → Option Diagnostics
  | .batch found => some found
  | _ => none

def answer (lexer : Lexer) : Call → Answer × Lexer
  | .next => (.token lexer.next.1, lexer.next.2)
  | .takeDiagnostics => (.batch lexer.takeDiagnostics.1, lexer.takeDiagnostics.2)
  | .isTruncated => (.verdict lexer.isTruncated, lexer)

/-- The answers to a row of calls, and the lexer behind them. -/
def drive (lexer : Lexer) : List Call → List Answer × Lexer
  | [] => ([], lexer)
  | call :: calls =>
      ((lexer.answer call).1 :: ((lexer.answer call).2.drive calls).1,
        ((lexer.answer call).2.drive calls).2)

def delivered (lexer : Lexer) (calls : List Call) : List Token :=
  (lexer.drive calls).1.filterMap Answer.token?

def taken (lexer : Lexer) (calls : List Call) : Diagnostics :=
  ((lexer.drive calls).1.filterMap Answer.batch?).flatten

/-- The scan of what a lexer has not delivered yet. At the end only the mark of it is left. -/
def remaining (lexer : Lexer) : Scan :=
  match lexer.status with
  | .scanning => .readFrom lexer.here lexer.rest
  | .finished => ⟨[], ⟨lexer.endMark, []⟩, false⟩
  | .truncated => ⟨[], ⟨lexer.endMark, []⟩, true⟩

variable (lexer : Lexer)

/-- To ask for a token takes it from the front of what remains, and faults met on the way to it
wait. At the end, the mark stays. -/
structure Yields (token : Token) (after : Lexer) : Prop where
  first : token = lexer.remaining.tokenAt 0
  others : ∀ i, after.remaining.tokenAt i = lexer.remaining.tokenAt (i + 1)
  faults : after.pending ++ after.remaining.diagnostics =
    lexer.pending ++ lexer.remaining.diagnostics
  truncated : after.remaining.truncated = lexer.remaining.truncated
  count : after.remaining.items.length = lexer.remaining.items.length - 1
  scanning : after.status = .scanning ↔
    lexer.status = .scanning ∧ 0 < lexer.remaining.items.length

variable {lexer : Lexer}

theorem yields_of_item (item : Item) {after : Lexer}
    (remains : lexer.remaining =
      { after.remaining with items := item :: after.remaining.items })
    (waiting : after.pending = lexer.pending ++ item.faults)
    (goesOn : lexer.status = .scanning) (stillOn : after.status = .scanning) :
    lexer.Yields item.token after := by
  refine ⟨by rw [remains]; rfl, fun i => by rw [remains]; rfl, ?_, by rw [remains], ?_, ?_⟩
  · rw [remains, Scan.diagnostics, Scan.diagnostics, List.flatMap_cons, waiting]
    simp only [List.append_assoc]
  · rw [remains]
    rfl
  · simp [remains, goesOn, stillOn]

theorem yields_of_end {after : Lexer} {mark : Token} {faults left : Diagnostics} {cutShort : Bool}
    (nothing : lexer.remaining = ⟨[], ⟨mark, faults⟩, cutShort⟩)
    (stillNothing : after.remaining = ⟨[], ⟨mark, left⟩, cutShort⟩)
    (waiting : after.pending ++ left = lexer.pending ++ faults)
    (done : after.status ≠ .scanning) : lexer.Yields mark after := by
  have none : lexer.remaining.items = [] := congrArg Scan.items nothing
  have stillNone : after.remaining.items = [] := congrArg Scan.items stillNothing
  refine ⟨?_, fun i => ?_, ?_, by rw [nothing, stillNothing], by rw [none, stillNone]; rfl, ?_⟩
  · rw [Scan.token_at_of_nil none, nothing]
  · rw [Scan.token_at_of_nil none, Scan.token_at_of_nil stillNone, nothing, stillNothing]
  · rw [nothing, stillNothing]
    exact waiting
  · simp [none, done]

theorem yields_next : lexer.Yields lexer.next.1 lexer.next.2 := by
  rcases lexer with ⟨here, rest, status, pending⟩
  cases status with
  | finished | truncated =>
      exact yields_of_end rfl rfl rfl (by simp [next])
  | scanning =>
      have scans : remaining ⟨here, rest, .scanning, pending⟩ = .readFrom here rest := rfl
      cases found : (Reading.lookAt here rest).found with
      | token word after behind =>
          rw [Scan.read_from_of_token found] at scans
          rw [next]
          simp only [found]
          exact yields_of_item ⟨word, _⟩ scans rfl rfl rfl
      | nothing =>
          rw [Scan.read_from_of_nothing found] at scans
          rw [next]
          simp only [found]
          exact yields_of_end scans rfl (List.append_nil _) nofun
      | unclosedComment =>
          rw [Scan.read_from_of_unclosed_comment found] at scans
          rw [next]
          simp only [found]
          exact yields_of_end scans rfl (List.append_nil _) nofun

section Runs

variable (lexer : Lexer) (calls : List Call)

theorem drive_append (before after : List Call) : lexer.drive (before ++ after) =
    ((lexer.drive before).1 ++ ((lexer.drive before).2.drive after).1,
      ((lexer.drive before).2.drive after).2) := by
  induction before generalizing lexer with
  | nil => rfl
  | cons call before induction =>
      rw [List.cons_append, drive, induction]
      rfl

theorem taken_append (before after : List Call) : lexer.taken (before ++ after) =
    lexer.taken before ++ (lexer.drive before).2.taken after := by
  rw [taken, drive_append, List.filterMap_append, List.flatten_append]
  rfl

theorem delivered_eq : lexer.delivered calls =
    (List.range (calls.count .next)).map lexer.remaining.tokenAt := by
  induction calls generalizing lexer with
  | nil => rfl
  | cons call calls induction =>
      cases call with
      | takeDiagnostics | isTruncated =>
          rw [List.count_cons_of_ne (by decide)]
          exact induction _
      | next =>
          rw [List.count_cons_self, List.range_succ_eq_map, List.map_cons, List.map_map]
          have shifted : lexer.next.2.remaining.tokenAt = lexer.remaining.tokenAt ∘ Nat.succ :=
            funext yields_next.others
          rw [← shifted, ← yields_next.first, ← induction]
          rfl

/-- Findings are neither lost nor made up nor moved on their way from the text to the client. -/
theorem conserves : lexer.taken calls ++
    ((lexer.drive calls).2.pending ++ (lexer.drive calls).2.remaining.diagnostics) =
      lexer.pending ++ lexer.remaining.diagnostics := by
  induction calls generalizing lexer with
  | nil => rfl
  | cons call calls induction =>
      cases call with
      | isTruncated => exact induction lexer
      | next => exact (induction lexer.next.2).trans yields_next.faults
      | takeDiagnostics =>
          have later := congrArg (lexer.pending ++ ·) (induction lexer.takeDiagnostics.2)
          exact (List.append_assoc _ _ _).trans later

theorem truncated_drive :
    (lexer.drive calls).2.remaining.truncated = lexer.remaining.truncated := by
  induction calls generalizing lexer with
  | nil => rfl
  | cons call calls induction =>
      cases call with
      | takeDiagnostics | isTruncated => exact induction _
      | next => exact (induction lexer.next.2).trans yields_next.truncated

theorem scanning_drive : (lexer.drive calls).2.status = .scanning ↔
    lexer.status = .scanning ∧ calls.count .next ≤ lexer.remaining.items.length := by
  induction calls generalizing lexer with
  | nil => simp [drive]
  | cons call calls induction =>
      cases call with
      | takeDiagnostics | isTruncated =>
          rw [List.count_cons_of_ne (by decide)]
          exact induction _
      | next =>
          have later := induction lexer.next.2
          rw [yields_next.scanning, yields_next.count, and_assoc] at later
          rw [List.count_cons_self]
          apply later.trans
          apply and_congr_right
          intro _
          omega

end Runs

theorem diagnostics_remaining (done : lexer.status ≠ .scanning) :
    lexer.remaining.diagnostics = [] := by
  rcases lexer with ⟨here, rest, status, pending⟩
  cases status with
  | scanning => exact absurd rfl done
  | finished | truncated => rfl

theorem is_truncated_eq : lexer.isTruncated =
    (lexer.remaining.truncated && decide (lexer.status ≠ .scanning)) := by
  rcases lexer with ⟨here, rest, status, pending⟩
  cases status with
  | scanning => exact (Bool.and_false _).symm
  | finished | truncated => rfl

theorem taken_done (done : lexer.status ≠ .scanning) (calls : List Call) :
    lexer.taken (.takeDiagnostics :: calls) = lexer.pending := by
  have whole := lexer.takeDiagnostics.2.conserves calls
  have nothing : lexer.takeDiagnostics.2.remaining.diagnostics = [] := diagnostics_remaining done
  rw [nothing] at whole
  have rest : lexer.taken (.takeDiagnostics :: calls) =
      lexer.pending ++ lexer.takeDiagnostics.2.taken calls := rfl
  rw [rest, (List.append_eq_nil_iff.mp whole).1, List.append_nil]

/-- What a client gets from a lexer that has all of `scan` in front of it. -/
structure Serves (lexer : Lexer) (scan : Scan) (calls : List Call) : Prop where
  tokens : lexer.delivered calls = (List.range (calls.count .next)).map scan.tokenAt
  early : lexer.taken calls <+: scan.diagnostics
  complete : ∀ before after, calls = before ++ .takeDiagnostics :: after →
    (∃ token ∈ lexer.delivered before, token.kind = .eof) → lexer.taken calls = scan.diagnostics
  truncated : (lexer.drive calls).2.isTruncated =
    (scan.truncated && decide (∃ token ∈ lexer.delivered calls, token.kind = .eof))

section OfText

variable (source : String) (calls : List Call)

theorem delivers_mark_iff : (∃ token ∈ (ofText source).delivered calls, token.kind = .eof) ↔
    ((ofText source).drive calls).2.status ≠ .scanning := by
  have goesOn : ((ofText source).drive calls).2.status = .scanning ↔
      calls.count .next ≤ (Scan.ofText source).items.length := by
    apply ((ofText source).scanning_drive calls).trans
    exact and_iff_right rfl
  rw [Ne, goesOn, Nat.not_le, (ofText source).delivered_eq]
  change (∃ token ∈ (List.range _).map (Scan.ofText source).tokenAt, _) ↔ _
  constructor
  · rintro ⟨token, member, mark⟩
    rcases List.mem_map.mp member with ⟨i, asked, rfl⟩
    by_contra few
    have inside : i < (Scan.ofText source).items.length := by
      have := List.mem_range.mp asked
      omega
    exact Scan.real_items source _ (Scan.token_at_of_lt inside) mark
  · intro many
    rcases Scan.ended_read_from .start source.toList with ⟨place, ended⟩
    refine ⟨_, List.mem_map_of_mem (List.mem_range.mpr many), ?_⟩
    rw [Scan.token_at_of_le (Nat.le_refl _), show (Scan.ofText source).ending.token = _ from ended]
    rfl

theorem serves_of_text : (ofText source).Serves (Scan.ofText source) calls := by
  have whole := (ofText source).conserves calls
  refine ⟨(ofText source).delivered_eq calls, ⟨_, whole⟩, ?_, ?_⟩
  · rintro before after rfl delivered
    have done := (delivers_mark_iff source before).mp delivered
    have early := (ofText source).conserves before
    rw [diagnostics_remaining done, List.append_nil] at early
    rw [taken_append, taken_done done]
    exact early
  · rw [is_truncated_eq, truncated_drive]
    apply congrArg
    exact decide_eq_decide.mpr (delivers_mark_iff source calls).symm

end OfText

end Lexer

namespace Scan

/-- What is to be reported about the text `source`, and nothing else. -/
structure IsExact (source : String) (found : Diagnostics) : Prop where
  ordered : found.Pairwise Diagnostic.Precedes
  members : ∀ finding, finding ∈ found ↔
    (∃ token ∈ (ofText source).tokens, finding.BlamesSymbol token) ∨
      finding.BlamesClosing source.toList ∨ finding.BlamesOpening source.toList
  symbols : List.Forall₂ Diagnostic.BlamesSymbol (found.filter Diagnostic.namesSymbol)
    ((ofText source).tokens.filter fun token => token.kind = .unknown)
  last : ∀ finding, finding.BlamesOpening source.toList → ∃ earlier, found = earlier ++ [finding]
  symbolText : ∀ (finding : Diagnostic) (token : Token), finding.BlamesSymbol token →
    finding.message = "Unrecognized symbol: '" ++ token.lexeme ++ "'."
  closingText : ∀ finding : Diagnostic, finding.BlamesClosing source.toList →
    finding.message = "there is no corresponding '\x7b'."
  openingText : ∀ finding : Diagnostic, finding.BlamesOpening source.toList →
    finding.message = "this comment wasn't closed."

variable (source : String)

theorem is_exact_diagnostics : IsExact source (ofText source).diagnostics where
  ordered := (surveyed_of_text source).ordered
  members _ := mem_diagnostics_iff source
  symbols := forall₂_symbols source
  last := by
    intro finding blames
    have member := (mem_diagnostics_iff source).mpr (.inr (.inr blames))
    rcases blames with ⟨_, _, _, _, rfl⟩
    exact (surveyed_of_text source).unclosed_last member rfl
  symbolText := by
    rintro _ token ⟨-, c, symbol, rfl⟩
    rw [symbol]
    rfl
  closingText := by
    rintro _ ⟨_, _, _, _, rfl⟩
    rfl
  openingText := by
    rintro _ ⟨_, _, _, _, rfl⟩
    rfl

/-- What is reported about a text is exact, and a client that drives a lexer gets the tokens and the
reports of a scan in whatever way it asks for them. -/
theorem lexical_reports_are_exact :
    IsExact source (ofText source).diagnostics ∧
      ∀ calls, (Lexer.ofText source).Serves (ofText source) calls :=
  ⟨is_exact_diagnostics source, Lexer.serves_of_text source⟩

/-- A batch taken halfway holds what was found so far, and the last one the rest. -/
theorem lexical_reports_taken_halfway :
    (Lexer.ofText "\x7d ? \x7b\x7d\x7d x \x7b").taken
        [.next, .takeDiagnostics, .next, .isTruncated, .next, .next, .next, .takeDiagnostics, .next] =
      [.lexical ⟨1, 1, 0⟩ .unopenedComment, .lexical ⟨1, 3, 2⟩ (.unrecognized '?'),
        .lexical ⟨1, 7, 6⟩ .unopenedComment, .lexical ⟨1, 11, 10⟩ .unclosedComment] := by
  let source := "\x7d ? \x7b\x7d\x7d x \x7b"
  let before : List Lexer.Call :=
    [.next, .takeDiagnostics, .next, .isTruncated, .next, .next, .next]
  have mark : ∃ token ∈ (Lexer.ofText source).delivered before, token.kind = .eof := by
    decide +kernel
  have whole := ((lexical_reports_are_exact source).2 _).complete before [.next] rfl mark
  apply whole.trans
  decide +kernel

end Scan

end TinyPascal
