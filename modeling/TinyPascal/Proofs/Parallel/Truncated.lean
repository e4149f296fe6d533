import TinyPascal.Proofs.Parallel.Layout
import TinyPascal.Proofs.Parallel.Whole
import TinyPascal.Proofs.Reported
import TinyPascal.Proofs.Spelling.Order
import TinyPascal.Proofs.Spelling.Unclosed

/-!
# A parse of a text that an unclosed comment cuts short

Such a text is parsed like the one in front of the comment: token by token the two parses do
the same, up to the end. Where the end is met the comment is reported, and errors found
there, which would only repeat that fault, are kept silent.
-/

namespace TinyPascal

set_option autoImplicit false

namespace Stream

theorem gather_ending (ending : Item) (fault : Diagnostic) (carried : List ParseEvent)
    (items : List Item) :
    gather ⟨ending.token, ending.faults ++ [fault]⟩ carried items =
      ((gather ending carried items).1, ⟨(gather ending carried items).2.token,
        (gather ending carried items).2.events ++ [.reported fault]⟩) := by
  induction items generalizing carried with
  | nil => simp [gather, faultEvents]
  | cons item items induction =>
      by_cases isComment : item.token.kind = .comment
      · rw [gather_comment isComment, gather_comment isComment, induction]
      · rw [gather_token isComment, gather_token isComment, induction]

/-- The stream of a text with an unclosed comment behind it. -/
theorem of_text_hiding {source hidden : String} (unclosed : '}' ∉ hidden.toList)
    (whole : (Scan.ofText source).truncated = false) :
    ofText (source ++ "\x7b" ++ hidden) =
      ⟨(ofText source).arrivals, ⟨(ofText source).ending.token,
        (ofText source).ending.events ++ [.reported (.unclosedBehind source)]⟩, true⟩ := by
  rw [ofText, Scan.of_text_hiding unclosed whole, ofScan, gather_ending]
  rfl

end Stream

namespace ParseState

/-- The first state is one of a parse of `stream`. The second is that of a parse which went the
same way, but through a text with an unclosed comment where the first one ends: `fault` is
met along with the end, and errors at the end are not heard. -/
structure Hidden (stream : Stream) (fault : Diagnostic) (s t : ParseState) : Prop where
  unread : t.unread = s.unread
  ending : s.ending = stream.ending
  ending' : t.ending = ⟨stream.ending.token, stream.ending.events ++ [.reported fault]⟩
  whole : s.truncated = false
  cut : t.truncated = true
  panicking : t.panicking = s.panicking
  forwarded : t.forwarded = s.forwarded
  remarks : t.remarks =
    s.remarks.filter fun remark => !(remark.isError && remark.isAt stream.ending.token)
  faults : t.faults = s.faults ++ if s.unread.length ≤ 1 then [fault] else []
  hadError : t.hadError = (s.hadError || decide (s.unread.length ≤ 1))
  lexical : fault.phase = .lexical
  apart : ∀ arrival ∈ s.unread, arrival.token.Precedes stream.ending.token
  count : s.consumed.length + s.unread.length = stream.arrivals.length
  orderly : s.Orderly

theorem pull_events_hiding (ending : Arrival) (fault : Diagnostic) (rest : List Arrival) :
    pullEvents ⟨ending.token, ending.events ++ [.reported fault]⟩ rest =
      pullEvents ending rest ++ if rest.length = 1 then [.reported fault] else [] := by
  rcases rest with _ | ⟨_, _ | ⟨_, _⟩⟩
  · rfl
  · rfl
  · simp [pullEvents]

namespace Hidden

variable {stream : Stream} {fault : Diagnostic} {s t : ParseState}

theorem orderly' (hidden : Hidden stream fault s t) : t.Orderly := by
  constructor
  · rw [hidden.unread]
    exact hidden.orderly.lexical
  · rw [hidden.ending']
    intro event member
    rcases List.mem_append.mp member with member | member
    · exact hidden.orderly.lexicalEnd event (hidden.ending ▸ member)
    · rw [List.mem_singleton.mp member]
      exact ⟨rfl, by simp [ParseEvent.remark?, hidden.lexical]⟩

theorem advance (hidden : Hidden stream fault s t) (more : s.unread ≠ []) :
    Hidden stream fault s.advance t.advance := by
  rcases List.exists_cons_of_ne_nil more with ⟨arrival, rest, unread⟩
  have unread' : t.unread = arrival :: rest := hidden.unread.trans unread
  have first := follows_advance hidden.orderly unread
  have second := follows_advance hidden.orderly' unread'
  have pulls : pullEvents t.ending rest =
      pullEvents s.ending rest ++ if rest.length = 1 then [.reported fault] else [] := by
    rw [hidden.ending, hidden.ending', pull_events_hiding]
  have left : s.advance.unread.length = rest.length := by
    rw [unread_advance, unread]
    rfl
  constructor
  case unread => rw [unread_advance, unread_advance, hidden.unread]
  case ending => rw [first.ending, hidden.ending]
  case ending' => rw [second.ending, hidden.ending']
  case whole => rw [first.truncated, hidden.whole]
  case cut => rw [second.truncated, hidden.cut]
  case panicking => rw [first.panicking, second.panicking, hidden.panicking]
  case forwarded =>
    rw [forwarded_advance unread, forwarded_advance unread', hidden.forwarded, pulls,
      List.filter_append]
    split <;> simp [ParseEvent.isForwarded]
  case remarks =>
    rw [first.remarks, second.remarks, hidden.remarks, List.filter_append]
    rfl
  case faults =>
    rw [faults_advance unread, faults_advance unread', hidden.faults, pulls, left, unread,
      List.filterMap_append, List.length_cons]
    -- The end comes into sight when one token is left in front of it.
    rcases rest with _ | ⟨_, _ | ⟨_, _⟩⟩
    · simp [pullEvents]
    · simp [ParseEvent.fault?, hidden.lexical]
    · simp
  case hadError =>
    rw [advance_of_unread unread, advance_of_unread unread']
    simp only [hidden.hadError, pulls, unread, faulty_append, List.length_cons]
    rcases rest with _ | ⟨_, _ | ⟨_, _⟩⟩
    · simp [pullEvents, faulty]
    · simp [faulty, ParseEvent.diagnostic?]
    · simp [faulty]
  case lexical => exact hidden.lexical
  case apart =>
    rw [unread_advance, unread]
    intro other member
    exact hidden.apart other (unread ▸ List.mem_cons_of_mem _ member)
  case count =>
    have count := hidden.count
    rw [unread, List.length_cons] at count
    rw [first.consumed, left, List.length_append]
    simp only [Script.tokens_read, Script.tokens_nil, List.length_cons, List.length_nil]
    omega
  case orderly => exact orderly_advance hidden.orderly

theorem current (hidden : Hidden stream fault s t) : t.current = s.current := by
  rw [ParseState.current, ParseState.current, hidden.unread, hidden.ending, hidden.ending']

/-- An error at a token is heard in both parses, an error at the end in the first alone. -/
theorem remarks_refuse (hidden : Hidden stream fault s t) (problem : SyntacticProblem) :
    (t.refuse problem).remarks = (s.refuse problem).remarks.filter fun remark =>
      !(remark.isError && remark.isAt stream.ending.token) := by
  rw [ParseState.remarks_refuse, ParseState.remarks_refuse, hidden.whole, hidden.cut, hidden.unread,
    hidden.current, hidden.remarks]
  cases unread : s.unread with
  | nil =>
      have last : s.current = stream.ending.token := by
        rw [ParseState.current, unread, hidden.ending]
      have isError : (Diagnostic.about .error stream.ending.token (.syntactic problem)).isError =
          true := rfl
      simp [last, isError, Diagnostic.is_at_about]
  | cons arrival rest =>
      have real : s.current.Precedes stream.ending.token := by
        rw [s.current_of_unread unread]
        exact hidden.apart arrival (unread ▸ List.mem_cons_self)
      simp [real.not_is_at]

theorem refuse (hidden : Hidden stream fault s t) (problem : SyntacticProblem) :
    Hidden stream fault (s.refuse problem) (t.refuse problem) := by
  refine ⟨hidden.unread, hidden.ending, hidden.ending', hidden.whole, hidden.cut, rfl,
    ?_, ?_, ?_, ?_, hidden.lexical, hidden.apart, ?_, ⟨hidden.orderly.1, hidden.orderly.2⟩⟩
  · rw [forwarded_refuse, forwarded_refuse, hidden.forwarded]
  · exact hidden.remarks_refuse problem
  · rw [faults_refuse, faults_refuse, hidden.faults]
    rfl
  · exact (Bool.true_or _).symm
  · rw [consumed_refuse]
    exact hidden.count

theorem warn (hidden : Hidden stream fault s t) (token : Token) (problem : SyntacticProblem) :
    Hidden stream fault (s.warn token problem) (t.warn token problem) := by
  have first := follows_warn s token problem
  have second := follows_warn t token problem
  refine ⟨hidden.unread, hidden.ending, hidden.ending', hidden.whole, hidden.cut,
    hidden.panicking, ?_, ?_, ?_, hidden.hadError, hidden.lexical, hidden.apart, ?_, ⟨hidden.orderly.1, hidden.orderly.2⟩⟩
  · rw [forwarded_warn, forwarded_warn, hidden.forwarded]
  · rw [first.remarks, second.remarks, hidden.remarks, List.filter_append]
    rfl
  · rw [faults_warn, faults_warn, hidden.faults]
    rfl
  · rw [first.consumed]
    exact (congrArg (· + _) (congrArg List.length (List.append_nil _))).trans hidden.count

theorem calm (hidden : Hidden stream fault s t) : Hidden stream fault s.calm t.calm :=
  ⟨hidden.unread, hidden.ending, hidden.ending', hidden.whole, hidden.cut, rfl,
    hidden.forwarded, hidden.remarks, hidden.faults, hidden.hadError, hidden.lexical, hidden.apart, hidden.count,
    ⟨hidden.orderly.1, hidden.orderly.2⟩⟩

end Hidden

theorem parallel_hidden (stream : Stream) (fault : Diagnostic) :
    Parallel .whole (Hidden stream fault) where
  current hidden := hidden.current.symm
  unread hidden := congrArg List.length hidden.unread.symm
  panicking hidden := hidden.panicking.symm
  advance hidden more := hidden.advance more
  refuse problem hidden := hidden.refuse problem
  warn := by
    intro s t token other problem hidden tokens
    have same : token = other := tokens
    rw [← same]
    exact hidden.warn token problem
  calm hidden := hidden.calm

theorem pulled_hiding (ending : Arrival) (fault : Diagnostic) (arrivals : List Arrival) :
    Stream.pulled ⟨ending.token, ending.events ++ [.reported fault]⟩ arrivals 2 =
      Stream.pulled ending arrivals 2 ++
        if arrivals.length ≤ 1 then [.reported fault] else [] := by
  rcases arrivals with _ | ⟨_, _ | ⟨_, _⟩⟩
  · rfl
  · simp [Stream.pulled]
  · simp [Stream.pulled]

theorem hidden_start {stream : Stream} {fault : Diagnostic} (lexical : stream.Lexical)
    (ordered : stream.tokens.Pairwise Token.Precedes) (whole : stream.truncated = false)
    (isLexical : fault.phase = .lexical) :
    Hidden stream fault (start stream)
      (start ⟨stream.arrivals, ⟨stream.ending.token, stream.ending.events ++ [.reported fault]⟩,
        true⟩) := by
  have nothing := consumed_start lexical
  have noRemark : (ParseEvent.reported fault).remark? = none := by
    simp [ParseEvent.remark?, isLexical]
  constructor
  case unread => rw [unread_start, unread_start]
  case ending => rw [ending_start]
  case ending' => rw [ending_start]
  case whole => rw [start_eq, whole]
  case cut => rw [start_eq]
  case panicking => rw [panicking_start, panicking_start]
  case forwarded =>
    rw [start_eq, start_eq, forwarded, forwarded, pulled_hiding, List.reverse_reverse,
      List.reverse_reverse, List.filter_append]
    split <;> simp [ParseEvent.isForwarded]
  case remarks =>
    have quiet := nothing.2
    rw [start_eq, remarks, List.reverse_reverse] at quiet
    rw [nothing.2, start_eq, pulled_hiding, remarks, List.reverse_reverse,
      List.filterMap_append, quiet]
    split <;> simp [noRemark]
  case faults =>
    rw [start_eq, start_eq, faults, faults, pulled_hiding, List.reverse_reverse,
      List.reverse_reverse, List.filterMap_append]
    split <;> simp [ParseEvent.fault?, isLexical]
  case hadError =>
    rw [start_eq, start_eq]
    simp only [pulled_hiding, faulty_append]
    congr 1
    split
    · next few => simp [few, faulty, ParseEvent.diagnostic?]
    · next many => simp [many, faulty]
  case lexical => exact isLexical
  case apart =>
    rw [unread_start]
    intro arrival member
    exact (List.pairwise_append.mp ordered).2.2 _ (List.mem_map_of_mem member) _
      (List.mem_singleton.mpr rfl)
  case count => rw [nothing.1, unread_start, List.length_nil, Nat.zero_add]
  case orderly => exact (ready_start lexical).toOrderly

end ParseState

namespace Parse

open ParseState

/-- Whether the end of a text comes into sight in its parse: two more tokens are pulled than
are consumed, and these are more than there are. -/
def meetsEnd (source : String) : Bool :=
  (Scan.ofText source).words.length < (ofText source).recorder.tokens.length + 2

/-- An unclosed comment hides only what it must. Behind a text that is not truncated itself it
changes neither the tree nor what is passed on. Of the remarks on the grammar it silences
the errors at the end of the text and nothing else, and it is reported, as the last
fault of the text, exactly if the end comes into sight; the text is then erroneous. -/
theorem unclosed_comment_hides_only_the_end (source hidden : String)
    (whole : (Scan.ofText source).truncated = false) (unclosed : '}' ∉ hidden.toList) :
    (ofText (source ++ "\x7b" ++ hidden)).program = (ofText source).program ∧
      (ofText (source ++ "\x7b" ++ hidden)).forwarded = (ofText source).forwarded ∧
      (ofText (source ++ "\x7b" ++ hidden)).diagnostics.ofPhase .syntactic =
        ((ofText source).diagnostics.ofPhase .syntactic).filter (fun remark =>
          !(remark.isError && remark.isAt (Scan.ofText source).ending.token)) ∧
      (ofText (source ++ "\x7b" ++ hidden)).diagnostics.ofPhase .lexical =
        (ofText source).diagnostics.ofPhase .lexical ++
          (if meetsEnd source then [.unclosedBehind source] else []) ∧
      (ofText (source ++ "\x7b" ++ hidden)).hadError =
        ((ofText source).hadError || meetsEnd source) := by
  have start := hidden_start (Stream.lexical_of_text source) (Stream.ordered source) whole
    (show (Diagnostic.unclosedBehind source).phase = .lexical from rfl)
  rw [← Stream.of_text_hiding unclosed whole] at start
  have alike := Step.alike_program (parallel_hidden (.ofText source) (.unclosedBehind source))
  rcases alike _ _ _ _ (ParseState.fits _) (ParseState.fits _) start with ⟨programs, final⟩
  rw [Program.seen_whole, Program.seen_whole] at programs
  have words : (Scan.ofText source).words.length = (Stream.ofText source).arrivals.length := by
    rw [← Stream.tokens_of_text, List.length_map]
  have count : (ofText source).recorder.tokens.length + (finalState (.ofText source)).unread.length =
      (Stream.ofText source).arrivals.length := final.count
  have ended : meetsEnd source = decide ((finalState (.ofText source)).unread.length ≤ 1) := by
    rw [meetsEnd, words]
    apply decide_eq_decide.mpr
    omega
  have ending : (Stream.ofText source).ending.token = (Scan.ofText source).ending.token :=
    (Stream.tokens_gather _ _ _).2
  refine ⟨programs.symm, final.forwarded, ?_, ?_, ?_⟩
  · rw [← remarks_eq, ← remarks_eq, ← ending]
    exact final.remarks
  · rw [← faults_eq, ← faults_eq, ended]
    simp only [decide_eq_true_eq]
    exact final.faults
  · rw [ended]
    exact final.hadError

/-- Behind a program that lacks its point, the comment is reported in place of the point; the
error and the warning before it stay. -/
theorem unclosed_comment_hides_missing_point :
    (Scan.ofText "program p; begin x := ; y() end").truncated = false ∧ '}' ∉ " . ".toList ∧
      ((ofText "program p; begin x := ; y() end").diagnostics.ofPhase .syntactic).length = 3 ∧
      ((ofText ("program p; begin x := ; y() end" ++ "\x7b" ++ " . ")).diagnostics.ofPhase
        .syntactic).length = 2 ∧
      (ofText ("program p; begin x := ; y() end" ++ "\x7b" ++ " . ")).diagnostics.ofPhase .lexical =
        [.unclosedBehind "program p; begin x := ; y() end"] := by
  have whole : (Scan.ofText "program p; begin x := ; y() end").truncated = false := by
    decide +kernel
  have unclosed : '}' ∉ " . ".toList := by decide
  have meets : meetsEnd "program p; begin x := ; y() end" = true := by decide +kernel
  rcases unclosed_comment_hides_only_the_end _ " . " whole unclosed with
    ⟨-, -, remarks, faults, -⟩
  refine ⟨whole, unclosed, by decide +kernel, ?_, ?_⟩
  · rw [remarks]
    decide +kernel
  · rw [faults, meets]
    decide +kernel

end Parse

end TinyPascal
