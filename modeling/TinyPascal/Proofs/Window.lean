import TinyPascal.Proofs.Script

/-!
# How far ahead a parse looks

Before a token is looked at, the one behind it has been pulled. After `count`
tokens are consumed, `count + 2` have therefore been pulled, the end of the text
standing in for those that are missing. `Scan.faultsWithin` lists the faults met
on the way there.
-/

namespace TinyPascal

set_option autoImplicit false

namespace Scan

/-- The tokens of the grammar: all but the comments. -/
def words (scan : Scan) : List Token :=
  (scan.items.map Item.token).filter fun token => token.kind != .comment

/-- The faults met while `count` tokens of the grammar are pulled from `items`.
The end of the text is such a token, as often as it is asked for. -/
def faultsAhead (ending : Item) : List Item → Nat → Diagnostics
  | _, 0 => []
  | [], _ + 1 => ending.faults
  | item :: items, count + 1 =>
      item.faults ++
        faultsAhead ending items (if item.token.kind = .comment then count + 1 else count)

def faultsWithin (scan : Scan) (count : Nat) : Diagnostics :=
  faultsAhead scan.ending scan.items count

end Scan

/-- A finding of the lexer, which is always an error. -/
def Diagnostic.IsFault (found : Diagnostic) : Prop :=
  ∃ place problem, found = .lexical place problem

theorem Diagnostic.IsFault.phase {fault : Diagnostic} (isFault : fault.IsFault) :
    fault.phase = .lexical := by
  rcases isFault with ⟨place, problem, rfl⟩
  rfl

theorem Diagnostic.IsFault.is_error {fault : Diagnostic} (isFault : fault.IsFault) :
    fault.isError = true := by
  rcases isFault with ⟨place, problem, rfl⟩
  rfl

namespace Reading

theorem is_fault_of_stray_braces {here : Position} {cs : List Char} {fault : Diagnostic}
    (member : fault ∈ strayBraces here cs) : fault.IsFault := by
  induction cs generalizing here with
  | nil => cases member
  | cons c cs induction =>
      unfold strayBraces at member
      split at member
      · rcases List.mem_cons.mp member with rfl | member
        · exact ⟨_, _, rfl⟩
        · exact induction member
      · exact induction member

theorem is_fault_of_look_at {here : Position} {cs : List Char} {fault : Diagnostic}
    (member : fault ∈ (lookAt here cs).faults) : fault.IsFault := by
  have stray : ∀ {fault : Diagnostic},
      fault ∈ strayBraces here (cs.takeWhile Lexeme.isFiller) → fault.IsFault := by
    intro fault member
    exact is_fault_of_stray_braces member
  unfold lookAt at member
  split at member
  · exact stray member
  · split at member
    · split at member
      · exact stray member
      · rcases List.mem_append.mp member with member | member
        · exact stray member
        · exact ⟨_, _, List.mem_singleton.mp member⟩
    · rcases List.mem_append.mp member with member | member
      · exact stray member
      · split at member
        · exact ⟨_, _, List.mem_singleton.mp member⟩
        · cases member

end Reading

namespace Scan

theorem is_fault_read_from (here : Position) (cs : List Char) :
    (∀ item ∈ (readFrom here cs).items, ∀ fault ∈ item.faults, fault.IsFault) ∧
      ∀ fault ∈ (readFrom here cs).ending.faults, fault.IsFault := by
  fun_induction readFrom here cs with
  | case1 here cs reading token after rest found _ following induction =>
      refine ⟨?_, induction.2⟩
      intro item member
      rcases List.mem_cons.mp member with rfl | member
      · exact fun fault => Reading.is_fault_of_look_at
      · exact induction.1 item member
  | case2 here cs | case3 here cs =>
      refine ⟨?_, fun fault => Reading.is_fault_of_look_at⟩
      intro item member
      cases member

theorem ended_read_from (here : Position) (cs : List Char) :
    ∃ place, (readFrom here cs).ending.token = .endOfFile place := by
  fun_induction readFrom here cs with
  | case1 here cs reading token after rest found _ following induction => exact induction
  | case2 here cs | case3 here cs => exact ⟨here, rfl⟩

/-- Only lexical faults are met, and the scan ends with the end-of-file mark. -/
structure Lexical (scan : Scan) : Prop where
  faults : ∀ item ∈ scan.items, ∀ fault ∈ item.faults, fault.phase = .lexical
  endFaults : ∀ fault ∈ scan.ending.faults, fault.phase = .lexical
  ended : ∃ place, scan.ending.token = .endOfFile place

theorem lexical_read_from (here : Position) (cs : List Char) : (readFrom here cs).Lexical := by
  rcases is_fault_read_from here cs with ⟨faults, endFaults⟩
  refine ⟨?_, ?_, ended_read_from here cs⟩
  · exact fun item member fault found => (faults item member fault found).phase
  · exact fun fault found => (endFaults fault found).phase

end Scan

namespace Stream

structure Lexical (stream : Stream) : Prop where
  events : ∀ arrival ∈ stream.arrivals, arrival.IsLexical
  endEvents : stream.ending.IsLexical
  ended : ∃ place, stream.ending.token = .endOfFile place

theorem lexical_fault_events {item : Item} (lexical : ∀ fault ∈ item.faults, fault.phase = .lexical) :
    ∀ event ∈ faultEvents item, event.IsLexical := by
  intro event member
  obtain ⟨fault, found, rfl⟩ := List.mem_map.mp member
  exact ⟨rfl, by simp [ParseEvent.remark?, lexical fault found]⟩

@[simp]
theorem diagnostics_scanned (token : Token) (events : List ParseEvent) :
    (.scanned token :: events).filterMap ParseEvent.diagnostic? =
      events.filterMap ParseEvent.diagnostic? := rfl

@[simp]
theorem diagnostics_comment (token : Token) (events : List ParseEvent) :
    (.comment token :: events).filterMap ParseEvent.diagnostic? =
      events.filterMap ParseEvent.diagnostic? := rfl

@[simp]
theorem diagnostics_fault_events (item : Item) :
    (faultEvents item).filterMap ParseEvent.diagnostic? = item.faults := by
  rw [faultEvents, List.filterMap_map]
  exact List.filterMap_some

variable {ending : Item} {carried : List ParseEvent} {item : Item} {items : List Item}

theorem gather_comment (isComment : item.token.kind = .comment) :
    gather ending carried (item :: items) =
      gather ending (carried ++ .scanned item.token :: faultEvents item ++ [.comment item.token])
        items := by
  simp [gather, isComment]

theorem gather_token (real : item.token.kind ≠ .comment) :
    gather ending carried (item :: items) =
      (⟨item.token, carried ++ .scanned item.token :: faultEvents item⟩ ::
        (gather ending [] items).1, (gather ending [] items).2) := by
  simp [gather, real]

theorem tokens_gather (ending : Item) (carried : List ParseEvent) (items : List Item) :
    (gather ending carried items).1.map Arrival.token =
        (items.map Item.token).filter (fun token => token.kind != .comment) ∧
      (gather ending carried items).2.token = ending.token := by
  induction items generalizing carried with
  | nil => exact ⟨rfl, rfl⟩
  | cons item items induction =>
      by_cases isComment : item.token.kind = .comment
      · rw [gather_comment isComment]
        simpa [isComment] using induction _
      · rw [gather_token isComment]
        simpa [isComment] using induction []

theorem events_gather {holds : ParseEvent → Prop} (already : ∀ event ∈ carried, holds event)
    (caused : ∀ item ∈ items, holds (.scanned item.token) ∧ holds (.comment item.token) ∧
      ∀ event ∈ faultEvents item, holds event)
    (endCaused : ∀ event ∈ faultEvents ending, holds event) :
    (∀ arrival ∈ (gather ending carried items).1, ∀ event ∈ arrival.events, holds event) ∧
      ∀ event ∈ (gather ending carried items).2.events, holds event := by
  induction items generalizing carried with
  | nil =>
      refine ⟨fun arrival member => (List.not_mem_nil member).elim, ?_⟩
      intro event member
      rcases List.mem_append.mp member with member | member
      · exact already event member
      · exact endCaused event member
  | cons item items induction =>
      have here := caused item List.mem_cons_self
      have events : ∀ event ∈ carried ++ .scanned item.token :: faultEvents item, holds event := by
        intro event member
        rcases List.mem_append.mp member with member | member
        · exact already event member
        · rcases List.mem_cons.mp member with rfl | member
          · exact here.1
          · exact here.2.2 event member
      have others := fun other member => caused other (List.mem_cons_of_mem item member)
      by_cases isComment : item.token.kind = .comment
      · rw [gather_comment isComment]
        refine induction ?_ others
        intro event member
        rcases List.mem_append.mp member with member | member
        · exact events event member
        · rw [List.mem_singleton.mp member]
          exact here.2.1
      · rw [gather_token isComment]
        have rest := induction (fun event member => (List.not_mem_nil member).elim) others
        refine ⟨?_, rest.2⟩
        intro arrival member
        rcases List.mem_cons.mp member with rfl | member
        · exact events
        · exact rest.1 arrival member

theorem lexical_gather (noCarried : ∀ event ∈ carried, event.IsLexical)
    (faults : ∀ item ∈ items, ∀ fault ∈ item.faults, fault.phase = .lexical)
    (endFaults : ∀ fault ∈ ending.faults, fault.phase = .lexical) :
    (∀ arrival ∈ (gather ending carried items).1, arrival.IsLexical) ∧
      (gather ending carried items).2.IsLexical := by
  refine events_gather noCarried ?_ (lexical_fault_events endFaults)
  intro item member
  exact ⟨⟨rfl, rfl⟩, ⟨rfl, rfl⟩, lexical_fault_events (faults item member)⟩

def pulled (ending : Arrival) : List Arrival → Nat → List ParseEvent
  | _, 0 => []
  | [], _ + 1 => ending.events
  | arrival :: arrivals, count + 1 => arrival.events ++ pulled ending arrivals count

theorem diagnostics_pulled (ending : Item) (carried : List ParseEvent) (items : List Item)
    (count : Nat) :
    (pulled (gather ending carried items).2 (gather ending carried items).1 (count + 1)).filterMap
        ParseEvent.diagnostic? =
      carried.filterMap ParseEvent.diagnostic? ++ Scan.faultsAhead ending items (count + 1) := by
  induction items generalizing carried count with
  | nil => simp [gather, pulled, Scan.faultsAhead]
  | cons item items induction =>
      by_cases isComment : item.token.kind = .comment
      · rw [gather_comment isComment, induction]
        simp [Scan.faultsAhead, isComment]
      · rw [gather_token isComment, pulled, Scan.faultsAhead, if_neg isComment]
        cases count with
        | zero => simp [pulled, Scan.faultsAhead]
        | succ count => simp [induction]

theorem lexical_of_text (source : String) : (ofText source).Lexical := by
  have scan := Scan.lexical_read_from .start source.toList
  have noEvents : ∀ event ∈ ([] : List ParseEvent), event.IsLexical := by
    intro event member
    cases member
  obtain ⟨events, endEvents⟩ := lexical_gather noEvents scan.faults scan.endFaults
  obtain ⟨place, ended⟩ := scan.ended
  exact ⟨events, endEvents, place, (tokens_gather _ _ _).2.trans ended⟩

theorem tokens_of_text (source : String) :
    (ofText source).arrivals.map Arrival.token = (Scan.ofText source).words :=
  (tokens_gather _ _ _).1

end Stream

namespace ParseState

variable (stream : Stream)

@[simp]
theorem unread_start : (start stream).unread = stream.arrivals := by
  unfold start
  split <;> rfl

@[simp]
theorem ending_start : (start stream).ending = stream.ending := by
  unfold start
  split <;> rfl

theorem panicking_start : (start stream).panicking = false := by
  unfold start
  split <;> rfl

theorem ready_start {stream : Stream} (lexical : stream.Lexical) : (start stream).Ready where
  calm := panicking_start stream
  ended := by
    obtain ⟨place, ended⟩ := lexical.ended
    rw [ending_start, ended]
    rfl
  lexical := by rw [unread_start]; exact lexical.events
  lexicalEnd := by rw [ending_start]; exact lexical.endEvents

theorem pull_events_eq_pulled (ending arrival : Arrival) (rest : List Arrival) :
    pullEvents ending (arrival :: rest) = Stream.pulled ending rest 1 := by
  cases rest <;> simp [pullEvents, Stream.pulled]

/-- Consuming `count` tokens pulls one further than it consumes. -/
theorem pull_events_append_pulls (ending arrival : Arrival) (rest : List Arrival) (count : Nat) :
    pullEvents ending (arrival :: rest) ++ pulls ending count (arrival :: rest) =
      Stream.pulled ending rest (count + 1) := by
  induction count generalizing arrival rest with
  | zero => simp [pulls, pull_events_eq_pulled]
  | succ count induction =>
      cases rest with
      | nil => cases count <;> simp [pulls, pullEvents, Stream.pulled]
      | cons next rest =>
          rw [pulls, induction next rest, pull_events_eq_pulled]
          simp [Stream.pulled]

theorem start_eq : start stream =
    ⟨stream.arrivals, stream.ending, stream.truncated, false,
      faulty (Stream.pulled stream.ending stream.arrivals 2),
      (Stream.pulled stream.ending stream.arrivals 2).reverse⟩ := by
  unfold start
  cases stream.arrivals with
  | nil => simp [observe, Stream.pulled, faulty]
  | cons first rest => simp [observe, pull_events_eq_pulled, Stream.pulled, faulty]

theorem had_error_start (count : Nat) :
    ((start stream).hadError || faulty (pulls stream.ending count stream.arrivals)) =
      faulty (Stream.pulled stream.ending stream.arrivals (count + 2)) := by
  rw [start_eq, ← faulty_append]
  cases stream.arrivals with
  | nil => cases count <;> simp [pulls, Stream.pulled]
  | cons first rest =>
      rw [Stream.pulled, ← pull_events_eq_pulled stream.ending first rest, List.append_assoc,
        pull_events_append_pulls]
      rfl

theorem events_pulled {holds : ParseEvent → Prop} {ending : Arrival} {arrivals : List Arrival}
    (each : ∀ arrival ∈ arrivals, ∀ event ∈ arrival.events, holds event)
    (last : ∀ event ∈ ending.events, holds event) (count : Nat) :
    ∀ event ∈ Stream.pulled ending arrivals count, holds event := by
  induction arrivals generalizing count with
  | nil =>
      cases count with
      | zero => simp [Stream.pulled]
      | succ count => exact last
  | cons first rest induction =>
      cases count with
      | zero => simp [Stream.pulled]
      | succ count =>
          intro event member
          rcases List.mem_append.mp member with member | member
          · exact each first List.mem_cons_self event member
          · exact induction (fun arrival found => each arrival (List.mem_cons_of_mem _ found)) count
              event member

theorem lexical_pulled {stream : Stream} (lexical : stream.Lexical) (count : Nat) :
    ∀ event ∈ Stream.pulled stream.ending stream.arrivals count, event.IsLexical :=
  events_pulled lexical.events lexical.endEvents count

theorem consumed_start {stream : Stream} (lexical : stream.Lexical) :
    (start stream).consumed = [] ∧ (start stream).remarks = [] := by
  rw [start_eq]
  simpa [consumed, remarks] using filter_map_eq_nil_of_lexical (lexical_pulled lexical 2)

/-- The window of a parse that has consumed `count` tokens of a text. -/
theorem faulty_of_text (source : String) (count : Nat) :
    faulty (Stream.pulled (Stream.ofText source).ending (Stream.ofText source).arrivals
      (count + 2)) = false ↔ (Scan.ofText source).faultsWithin (count + 2) = [] := by
  rw [faulty_eq_false_iff, Stream.ofText, Stream.ofScan, Stream.diagnostics_pulled]
  rfl

end ParseState

end TinyPascal
