import TinyPascal.Proofs.Faults

/-!
# What a parse passes on

Tokens are passed on when they are consumed, comments as soon as the token behind them is pulled,
two tokens ahead. So what has been passed on at any time is a beginning of the tokens of the
grammar and a beginning of the comments of the text, the second one further than the first.
-/

namespace TinyPascal

set_option autoImplicit false

namespace Scan

def comments (scan : Scan) : List Token :=
  (scan.items.map Item.token).filter fun token => token.kind = .comment

def commentsAhead : List Item → Nat → List Token
  | _, 0 => []
  | [], _ + 1 => []
  | item :: items, count + 1 =>
      if item.token.kind = .comment then item.token :: commentsAhead items (count + 1)
      else commentsAhead items count

variable {item : Item} {items : List Item} {count : Nat}

theorem comments_ahead_comment (isComment : item.token.kind = .comment) :
    commentsAhead (item :: items) (count + 1) = item.token :: commentsAhead items (count + 1) :=
  if_pos isComment

theorem comments_ahead_token (real : item.token.kind ≠ .comment) :
    commentsAhead (item :: items) (count + 1) = commentsAhead items count :=
  if_neg real

theorem comments_ahead_prefix (items : List Item) (count : Nat) :
    commentsAhead items count <+:
      (items.map Item.token).filter fun token => token.kind = .comment := by
  induction items generalizing count with
  | nil => cases count <;> exact List.nil_prefix
  | cons item items induction =>
      cases count with
      | zero => exact List.nil_prefix
      | succ count =>
          by_cases isComment : item.token.kind = .comment
          · rw [comments_ahead_comment isComment, List.map_cons,
              List.filter_cons_of_pos (by simpa using isComment)]
            exact (List.prefix_cons_inj item.token).mpr (induction _)
          · rw [comments_ahead_token isComment, List.map_cons,
              List.filter_cons_of_neg (by simpa using isComment)]
            exact induction _

theorem comments_ahead_of_length_lt (items : List Item) (count : Nat)
    (enough : ((items.map Item.token).filter fun token => token.kind != .comment).length < count) :
    commentsAhead items count =
      (items.map Item.token).filter fun token => token.kind = .comment := by
  induction items generalizing count with
  | nil => cases count <;> rfl
  | cons item items induction =>
      cases count with
      | zero => cases enough
      | succ count =>
          by_cases isComment : item.token.kind = .comment
          · rw [comments_ahead_comment isComment, induction (count + 1) (by simpa [isComment] using enough)]
            simp [isComment]
          · rw [comments_ahead_token isComment, induction count (by simpa [isComment] using enough)]
            simp [isComment]

end Scan

namespace ParseEvent

theorem comments_of_forwarded (events : List ParseEvent) :
    (events.filter isForwarded).filterMap comment? = events.filterMap comment? := by
  rw [List.filterMap_filter]
  congr 1
  funext event
  cases event <;> rfl

end ParseEvent

namespace Stream

theorem comments_fault_events (item : Item) : (faultEvents item).filterMap ParseEvent.comment? = [] := by
  rw [List.filterMap_eq_nil_iff]
  intro event member
  rcases List.mem_map.mp member with ⟨fault, _, rfl⟩
  rfl

/-- To scan an item passes no comment on, not even if the item is one. -/
theorem comments_scanned (carried : List ParseEvent) (item : Item) :
    (carried ++ .scanned item.token :: faultEvents item).filterMap ParseEvent.comment? =
      carried.filterMap ParseEvent.comment? := by
  have scanned : ParseEvent.comment? (.scanned item.token) = none := rfl
  rw [List.filterMap_append, List.filterMap_cons_none scanned, comments_fault_events, List.append_nil]

theorem comments_pulled (ending : Item) (carried : List ParseEvent) (items : List Item)
    (count : Nat) :
    (pulled (gather ending carried items).2 (gather ending carried items).1 (count + 1)).filterMap
        ParseEvent.comment? =
      carried.filterMap ParseEvent.comment? ++ Scan.commentsAhead items (count + 1) := by
  induction items generalizing carried count with
  | nil => simp [gather, pulled, Scan.commentsAhead, comments_fault_events]
  | cons item items induction =>
      by_cases isComment : item.token.kind = .comment
      · rw [gather_comment isComment, induction, Scan.comments_ahead_comment isComment,
          List.filterMap_append, comments_scanned, List.append_assoc]
        rfl
      · rw [gather_token isComment, pulled, Scan.comments_ahead_token isComment,
          List.filterMap_append, comments_scanned]
        cases count with
        | zero => simp [pulled, Scan.commentsAhead]
        | succ count => rw [induction, List.filterMap_nil, List.nil_append]

end Stream

namespace ParseState

def comments (s : ParseState) : List Token := s.trace.reverse.filterMap ParseEvent.comment?

theorem comments_eq (s : ParseState) : s.comments = s.forwarded.filterMap ParseEvent.comment? :=
  (ParseEvent.comments_of_forwarded _).symm

/-- A state of a parse of `stream`. What was consumed is the beginning of the stream, and
the comments passed on are those before the second token behind it. -/
structure Delivers (stream : Stream) (s : ParseState) : Prop where
  meets : s.Meets stream
  tokens : s.consumed ++ s.unread.map Arrival.token = stream.arrivals.map Arrival.token
  comments : s.comments = (Stream.pulled stream.ending stream.arrivals
    (s.consumed.length + 2)).filterMap ParseEvent.comment?

namespace Delivers

variable {stream : Stream} {s : ParseState}

theorem advance (delivers : s.Delivers stream) (more : s.unread ≠ []) :
    s.advance.Delivers stream := by
  rcases List.exists_cons_of_ne_nil more with ⟨arrival, rest, unread⟩
  have consumed : s.advance.consumed = s.consumed ++ [arrival.token] :=
    (follows_advance delivers.meets.orderly unread).consumed
  have next : stream.arrivals.drop s.consumed.length = arrival :: rest := by
    rw [← delivers.meets.unread, unread]
  constructor
  case meets => exact delivers.meets.advance more
  case tokens =>
    rw [consumed, unread_advance, ← delivers.tokens, unread]
    simp
  case comments =>
    rw [comments_eq, forwarded_advance unread, List.filterMap_append, ← comments_eq,
      delivers.comments, consumed, List.length_append, delivers.meets.ending,
      List.filterMap_append, ParseEvent.comments_of_forwarded]
    change _ = (Stream.pulled stream.ending stream.arrivals (s.consumed.length + 3)).filterMap _
    rw [Stream.pulled_succ stream.ending next, List.filterMap_append]
    simp [ParseEvent.comment?]

theorem refuse (delivers : s.Delivers stream) (problem : SyntacticProblem) :
    (s.refuse problem).Delivers stream := by
  constructor
  case meets => exact delivers.meets.refuse problem
  case tokens =>
    rw [consumed_refuse]
    exact delivers.tokens
  case comments =>
    rw [comments_eq, forwarded_refuse, ← comments_eq, consumed_refuse]
    exact delivers.comments

theorem warn (delivers : s.Delivers stream) (token : Token) (problem : SyntacticProblem) :
    (s.warn token problem).Delivers stream := by
  have consumed : (s.warn token problem).consumed = s.consumed :=
    (follows_warn s token problem).consumed.trans (List.append_nil _)
  constructor
  case meets => exact delivers.meets.warn token problem
  case tokens =>
    rw [consumed]
    exact delivers.tokens
  case comments =>
    rw [comments_eq, forwarded_warn, ← comments_eq, consumed]
    exact delivers.comments

theorem lasting (stream : Stream) : Lasting (Delivers stream) where
  advance delivers more := delivers.advance more
  refuse problem delivers := delivers.refuse problem
  warn token problem delivers := delivers.warn token problem
  calm delivers := ⟨(Meets.lasting stream).calm delivers.meets, delivers.tokens, delivers.comments⟩

end Delivers

theorem delivers_start {stream : Stream} (lexical : stream.Lexical) :
    (start stream).Delivers stream := by
  have nothing := (consumed_start lexical).1
  constructor
  case meets => exact meets_start lexical
  case tokens =>
    rw [nothing, unread_start]
    rfl
  case comments =>
    rw [nothing, start_eq, comments, List.reverse_reverse]
    rfl

end ParseState

namespace Parse

open ParseState

variable (source : String)

theorem delivers_of_text : (finalState (.ofText source)).Delivers (.ofText source) :=
  (Delivers.lasting _).program (fits _) (delivers_start (Stream.lexical_of_text source))

theorem recorded_tokens_first : (ofText source).recorder.tokens <+: (Scan.ofText source).words := by
  have whole := (delivers_of_text source).tokens
  rw [Stream.tokens_of_text] at whole
  exact ⟨_, whole⟩

theorem recorded_comments_eq : (ofText source).recorder.comments =
    Scan.commentsAhead (Scan.ofText source).items ((ofText source).recorder.tokens.length + 2) := by
  have passed := Stream.comments_pulled (Scan.ofText source).ending [] (Scan.ofText source).items
    ((ofText source).recorder.tokens.length + 1)
  rw [List.filterMap_nil, List.nil_append] at passed
  exact (delivers_of_text source).comments.trans passed

theorem recorded_comments_first :
    (ofText source).recorder.comments <+: (Scan.ofText source).comments := by
  rw [recorded_comments_eq]
  exact Scan.comments_ahead_prefix _ _

variable {source}

theorem recorded_comments_of_meets_end (meets : meetsEnd source = true) :
    (ofText source).recorder.comments = (Scan.ofText source).comments := by
  rw [recorded_comments_eq]
  exact Scan.comments_ahead_of_length_lt _ _ (of_decide_eq_true meets)

end Parse

end TinyPascal
