import TinyPascal.Proofs.Discipline.Steps
import TinyPascal.Proofs.Parallel.Layout

/-!
# Accounts of a parse

An account is a step together with what there is to tell of it: which rules were entered and left
on the way, in which states, and where an error was raised. The moves of the grammar can be made as
accounts, and so the grammar itself is also an account of a parse.

An account is clear if all that it tells is disciplined: a rule is entered without a panic, and it
leaves one behind if and only if it was abandoned. It is complete if no error is raised of which
it does not tell.
-/

namespace TinyPascal

set_option autoImplicit false

inductive Incident where
  | tried (rule : Attempt) (before after : ParseState) (abandoned : Bool)
  | passed (rule : Passage) (before after : ParseState)
  | refused (here : ParseState) (problem : SyntacticProblem)
deriving DecidableEq, Repr

namespace Incident

def IsDisciplined : Incident → Prop
  | tried _ before after abandoned =>
      before.panicking = false ∧ (abandoned = true ↔ after.panicking = true)
  | passed _ before after => before.panicking = false ∧ after.panicking = false
  | refused here _ => here.panicking = false

/-- The error that is reported, if one is. At the end of a truncated text none is. -/
def error? : Incident → Option Diagnostic
  | refused here problem =>
      if here.truncated && here.unread.isEmpty then none
      else some (.about .error here.current (.syntactic problem))
  | _ => none

end Incident

structure Account (n : Nat) (α : Type) where
  step : Step n α
  incidents : (s : ParseState) → s.unread.length < n → List Incident

namespace Account

variable {n m : Nat} {α β : Type}

def silent (step : Step n α) : Account n α := ⟨step, fun _ _ => []⟩

instance : Monad (Account n) where
  pure value := silent (pure value)
  bind account next :=
    ⟨account.step >>= fun value => (next value).step, fun s bounded =>
      let first := account.step s bounded
      account.incidents s bounded ++ (next first.value).incidents first.state
        (Nat.lt_of_le_of_lt first.noMore bounded)⟩

theorem bounded_within {s : ParseState} (bounded : s.unread.length < m) (fits : m ≤ n) :
    s.unread.length < n :=
  Nat.lt_of_lt_of_le bounded fits

def within (fits : m ≤ n) (account : Account n α) : Account m α :=
  ⟨account.step.within fits, fun s bounded => account.incidents s (bounded_within bounded fits)⟩

def refuse (problem : SyntacticProblem) : Account n Unit :=
  ⟨Step.refuse problem, fun s _ => [.refused s problem]⟩

theorem bounded_advance {s : ParseState} {arrival : Arrival} {rest : List Arrival}
    (unread : s.unread = arrival :: rest) (bounded : s.unread.length < n + 1) :
    s.advance.unread.length < n := by
  rw [ParseState.unread_advance, unread]
  rw [unread] at bounded
  exact Nat.lt_of_succ_lt_succ bounded

def consuming (kinds : Kind → Bool) (behind : Token → Account n α)
    (otherwise : Account (n + 1) α) : Account (n + 1) α :=
  ⟨Step.consuming kinds (fun token => (behind token).step) otherwise.step, fun s bounded =>
    match unread : s.unread with
    | [] => otherwise.incidents s bounded
    | arrival :: _ =>
        if kinds arrival.token.kind then
          (behind arrival.token).incidents s.advance (bounded_advance unread bounded)
        else otherwise.incidents s bounded⟩

/-- Tells of a rule that it was tried, and by its value whether it was abandoned. -/
def trying (rule : Attempt) (abandoned : α → Bool) (account : Account n α) : Account n α :=
  ⟨account.step, fun s bounded =>
    .tried rule s (account.step s bounded).state (abandoned (account.step s bounded).value) ::
      account.incidents s bounded⟩

def passing (rule : Passage) (account : Account n α) : Account n α :=
  ⟨account.step, fun s bounded =>
    .passed rule s (account.step s bounded).state :: account.incidents s bounded⟩

instance : Parsing Account where
  never := silent Step.never
  within := within
  current := silent Step.current
  sees kinds := silent (Step.sees kinds)
  panicking := silent Step.panicking
  calm := silent Step.calm
  warn token problem := silent (Step.warn token problem)
  refuse := refuse
  take kinds := silent (Step.take kinds)
  consuming := consuming
  recover stops := silent (Step.recover stops)
  trying := trying
  passing := passing

end Account

abbrev Told (n : Nat) (α : Type) : Type := RuleOf Account n α

namespace ParseState

/-- On the way from `before` to `after` the parser itself reports `errors`, and no others. -/
structure Raises (before : ParseState) (errors : Diagnostics) (after : ParseState) : Prop where
  orderly : after.Orderly
  errors : after.remarks.errors = before.remarks.errors ++ errors

namespace Raises

variable {s before middle after : ParseState} {first second : Diagnostics}

theorem refl (orderly : s.Orderly) : s.Raises [] s := ⟨orderly, (List.append_nil _).symm⟩

theorem trans (start : before.Raises first middle) (finish : middle.Raises second after) :
    before.Raises (first ++ second) after where
  orderly := finish.orderly
  errors := by rw [finish.errors, start.errors, List.append_assoc]

theorem advance (orderly : s.Orderly) : s.Raises [] s.advance := by
  cases unread : s.unread with
  | nil =>
      have same : s.advance = s := by simp [ParseState.advance, unread]
      rw [same]
      exact refl orderly
  | cons arrival rest =>
      have follows := follows_advance orderly unread
      exact ⟨follows.orderly orderly, by simp [follows.remarks]⟩

theorem skip_to (stops : Kind → Bool) (orderly : s.Orderly) : s.Raises [] (s.skipTo stops) := by
  unfold ParseState.skipTo
  generalize s.unread.takeWhile _ = skipped
  induction skipped generalizing s with
  | nil => exact refl orderly
  | cons arrival others induction =>
      have first := advance orderly
      exact first.trans (induction first.orderly)

theorem warn (token : Token) (problem : SyntacticProblem) (orderly : s.Orderly) :
    s.Raises [] (s.warn token problem) := by
  have follows := follows_warn s token problem
  refine ⟨follows.orderly orderly, ?_⟩
  rw [follows.remarks, Diagnostics.errors, List.filter_append]
  rfl

theorem calm (orderly : s.Orderly) : s.Raises [] s.calm :=
  ⟨⟨orderly.lexical, orderly.lexicalEnd⟩, (List.append_nil _).symm⟩

theorem refuse (problem : SyntacticProblem) (orderly : s.Orderly) :
    s.Raises (Incident.error? (.refused s problem)).toList (s.refuse problem) := by
  refine ⟨⟨orderly.lexical, orderly.lexicalEnd⟩, ?_⟩
  rw [remarks_refuse]
  simp only [Incident.error?]
  split
  · exact (List.append_nil _).symm
  · exact List.filter_append ..

end Raises

end ParseState

open ParseState Step

namespace Account

variable {n : Nat} {α : Type}

/-- All errors that the parser reports are told of. Faults of the text below are none of them, as
long as tokens are pulled in an orderly way. -/
def Complete (account : Account n α) : Prop :=
  ∀ (s : ParseState) (bounded : s.unread.length < n), s.Orderly →
    s.Raises ((account.incidents s bounded).filterMap Incident.error?)
      (account.step s bounded).state

/-- The account is a complete one of `step`, which keeps a contract, and all that it tells is
disciplined. -/
structure Clears (before : ParseState → Prop) (account : Account n α) (step : Step n α)
    (after : α → ParseState → Prop) : Prop where
  same : account.step = step
  meets : Step.Meets before step after
  disciplined : ∀ (s : ParseState) (bounded : s.unread.length < n), before s →
    ∀ incident ∈ account.incidents s bounded, incident.IsDisciplined
  complete : account.Complete

theorem consuming_cases {kinds : Kind → Bool} {behind : Token → Account n α}
    {otherwise : Account (n + 1) α} {s : ParseState} (bounded : s.unread.length < n + 1)
    {motive : ParseState → List Incident → Prop}
    (missed : s.unread = [] ∨ kinds s.current.kind = false →
      motive (otherwise.step s bounded).state (otherwise.incidents s bounded))
    (found : ∀ (arrival : Arrival) (rest : List Arrival) (below : s.advance.unread.length < n),
      s.unread = arrival :: rest →
      motive ((behind arrival.token).step s.advance below).state
        ((behind arrival.token).incidents s.advance below)) :
    motive ((consuming kinds behind otherwise).step s bounded).state
      ((consuming kinds behind otherwise).incidents s bounded) := by
  obtain ⟨unread, ending, truncated, panicking, hadError, trace⟩ := s
  cases unread with
  | nil => exact missed (.inl rfl)
  | cons arrival rest =>
      unfold consuming Step.consuming
      cases faced : kinds arrival.token.kind with
      | true =>
          simp only [faced, if_true]
          exact found arrival rest _ rfl
      | false =>
          simp only [faced]
          exact missed (.inr faced)

section Moves

variable {n m : Nat} {α β : Type} {before : ParseState → Prop} {after : α → ParseState → Prop}

theorem Clears.weaken {other : ParseState → Prop} {final : α → ParseState → Prop}
    {account : Account n α} {step : Step n α} (clears : Clears before account step after)
    (enough : ∀ s, other s → before s) (implies : ∀ value s, after value s → final value s) :
    Clears other account step final :=
  ⟨clears.same, clears.meets.weaken enough implies,
    fun s bounded start => clears.disciplined s bounded (enough s start), clears.complete⟩

theorem Clears.under {other : ParseState → Prop} {account : Account n α} {step : Step n α}
    (clears : Clears before account step after) (enough : ∀ s, other s → before s) :
    Clears other account step after :=
  clears.weaken enough fun _ _ reached => reached

theorem clears_silent {step : Step n α} (meets : Meets before step after)
    (complete : (silent step).Complete) : Clears before (silent step) step after :=
  ⟨rfl, meets, fun _ _ _ => List.forall_mem_nil _, complete⟩

theorem clears_pure {value : α} (ready : ∀ s, before s → after value s) :
    Clears before (pure value : Account n α) (pure value) after :=
  clears_silent (meets_pure ready) fun _ _ => Raises.refl

theorem clears_bind {middle : α → ParseState → Prop} {after : β → ParseState → Prop}
    {account : Account n α} {step : Step n α} {next : α → Account n β} {next' : α → Step n β}
    (first : Clears before account step middle)
    (second : ∀ value, Clears (middle value) (next value) (next' value) after) :
    Clears before (account >>= next) (step >>= next') after where
  same := by
    have behind : (fun value => (next value).step) = next' :=
      funext fun value => (second value).same
    rw [← first.same, ← behind]
    rfl
  meets := meets_bind first.meets fun value => (second value).meets
  disciplined := by
    intro s bounded start
    have reached := first.meets s bounded start
    rw [← first.same] at reached
    have further := (second _).disciplined _
      (Nat.lt_of_le_of_lt (account.step s bounded).noMore bounded) reached
    exact List.forall_mem_append.mpr ⟨first.disciplined s bounded start, further⟩
  complete := by
    intro s bounded orderly
    have raised := first.complete s bounded orderly
    have further := (second (account.step s bounded).value).complete _
      (Nat.lt_of_le_of_lt (account.step s bounded).noMore bounded) raised.orderly
    have whole := raised.trans further
    rw [← List.filterMap_append] at whole
    exact whole

theorem clears_never :
    Clears before (Parsing.never : Account 0 α) Parsing.never after :=
  clears_silent meets_never fun _ bounded => absurd bounded (Nat.not_lt_zero _)

theorem clears_within {account : Account n α} {step : Step n α} (fits : m ≤ n)
    (clears : Clears before account step after) :
    Clears before (Parsing.within fits account) (Parsing.within fits step) after :=
  ⟨congrArg (Step.within fits) clears.same, meets_within fits clears.meets,
    fun s _ start => clears.disciplined s _ start, fun s _ orderly => clears.complete s _ orderly⟩

theorem clears_sees (kinds : Kind → Bool) :
    Clears before (Parsing.sees kinds : Account n Bool) (Parsing.sees kinds) fun answer s =>
      before s ∧ kinds s.current.kind = answer :=
  clears_silent (meets_sees kinds) fun _ _ => Raises.refl

theorem clears_current :
    Clears before (Parsing.current : Account n Token) Parsing.current fun token s =>
      before s ∧ s.current = token :=
  clears_silent meets_current fun _ _ => Raises.refl

theorem clears_panicking :
    Clears before (Parsing.panicking : Account n Bool) Parsing.panicking fun answer s =>
      before s ∧ s.panicking = answer :=
  clears_silent meets_panicking fun _ _ => Raises.refl

theorem clears_passing (rule : Passage) {account : Account n α} {step : Step n α}
    (clears : Clears before account step after) (entered : ∀ s, before s → s.panicking = false)
    (left : ∀ value s, after value s → s.panicking = false) :
    Clears before (Parsing.passing rule account) (Parsing.passing rule step) after where
  same := clears.same
  meets := clears.meets
  disciplined := by
    intro s bounded start
    have reached := clears.meets s bounded start
    rw [← clears.same] at reached
    exact List.forall_mem_cons.mpr
      ⟨⟨entered s start, left _ _ reached⟩, clears.disciplined s bounded start⟩
  complete := clears.complete

/-- A rule that is tried has to start without a panic, and to leave one behind if and only if it
was abandoned. -/
theorem clears_trying (rule : Attempt) {abandoned : α → Bool} {account : Account n α}
    {step : Step n α} (clears : Clears before account step after)
    (entered : ∀ s, before s → s.panicking = false)
    (left : ∀ value s, after value s → (abandoned value = true ↔ s.panicking = true)) :
    Clears before (Parsing.trying rule abandoned account) (Parsing.trying rule abandoned step)
      after where
  same := clears.same
  meets := clears.meets
  disciplined := by
    intro s bounded start
    have reached := clears.meets s bounded start
    rw [← clears.same] at reached
    exact List.forall_mem_cons.mpr
      ⟨⟨entered s start, left _ _ reached⟩, clears.disciplined s bounded start⟩
  complete := clears.complete

end Moves

end Account

namespace Discipline

open Account

variable {d : Discipline} {n : Nat} {α β : Type} {kinds : Kind → Bool}
  {before : ParseState → Prop} {after : α → ParseState → Prop}

theorem clears_calm (kinds : Kind → Bool) :
    Clears (fun s => d.ends (fun _ => false) s ∧ kinds s.current.kind = true)
      (Parsing.calm : Account n Unit) Parsing.calm fun _ => d.held kinds :=
  clears_silent (meets_calm kinds) fun _ _ => Raises.calm

theorem clears_warn {token : Token} {problem : SyntacticProblem}
    (warned : ∀ s, before s → d.clear (s.warn token problem)) :
    Clears before (Parsing.warn token problem : Account n Unit) (Parsing.warn token problem)
      fun _ => d.clear :=
  clears_silent (fun s _ start => warned s start) fun _ _ => Raises.warn token problem

theorem clears_refuse (problem : SyntacticProblem) :
    Clears d.clear (Parsing.refuse problem : Account n Unit) (Parsing.refuse problem)
      fun _ => d.broken :=
  ⟨rfl, meets_refuse problem, fun _ _ clear => List.forall_mem_singleton.mpr (d.calm_of_held clear),
    fun _ _ orderly => Raises.refuse problem orderly⟩

theorem clears_take (taken : Kind → Bool) :
    Clears (d.held kinds) (Parsing.take taken : Account n (Option Token)) (Parsing.take taken)
      fun found s => found.elim (d.held (fun kind => kinds kind && !taken kind) s) fun token =>
        d.behind token s := by
  apply clears_silent (meets_take taken)
  intro s bounded orderly
  apply take_cases taken bounded (motive := fun _ t => s.Raises [] t)
  · exact fun _ => Raises.refl orderly
  · exact fun _ _ _ _ => Raises.advance orderly

theorem clears_take_bind (taken : Kind → Bool) {next : Option Token → Account n α}
    {next' : Option Token → Step n α}
    (found : ∀ token, Clears (d.behind token) (next (some token)) (next' (some token)) after)
    (missing : Clears (d.held fun kind => kinds kind && !taken kind) (next none) (next' none) after) :
    Clears (d.held kinds) (Parsing.take taken >>= next) (Parsing.take taken >>= next') after := by
  apply clears_bind (clears_take taken)
  intro token
  cases token with
  | none => exact missing
  | some token => exact found token

theorem clears_recover (stops : Kind → Bool) :
    Clears (d.ends fun _ => false) (Parsing.recover stops : Account n Unit) (Parsing.recover stops)
      fun _ => d.held stops := by
  apply clears_silent (meets_recover stops)
  intro s bounded orderly
  unfold silent recover
  dsimp only
  split
  · exact (Raises.calm orderly).trans (Raises.skip_to stops (Raises.calm orderly).orderly)
  · exact Raises.refl orderly

theorem clears_consuming (taken : Kind → Bool) {next : Token → Account n α}
    {next' : Token → Step n α} {otherwise : Account (n + 1) α} {otherwise' : Step (n + 1) α}
    (found : ∀ token, Clears (d.behind token) (next token) (next' token) after)
    (missing : Clears (d.held fun kind => kinds kind && !taken kind) otherwise otherwise' after) :
    Clears (d.held kinds) (Parsing.consuming taken next otherwise)
      (Parsing.consuming taken next' otherwise') after where
  same := by
    have behind : (fun token => (next token).step) = next' :=
      funext fun token => (found token).same
    rw [← missing.same, ← behind]
    rfl
  meets := meets_consuming taken (fun token => (found token).meets) missing.meets
  disciplined := by
    intro s bounded held
    apply Account.consuming_cases bounded (motive := fun _ incidents =>
      ∀ incident ∈ incidents, incident.IsDisciplined)
    · intro missed
      exact missing.disciplined s bounded (held_of_missed held missed)
    · intro arrival rest below unread
      exact (found _).disciplined _ below (d.advance held unread)
  complete := by
    intro s bounded orderly
    apply Account.consuming_cases bounded (motive := fun t incidents =>
      s.Raises (incidents.filterMap Incident.error?) t)
    · intro _
      exact missing.complete s bounded orderly
    · intro arrival rest below _
      have passed := Raises.advance orderly
      exact passed.trans ((found _).complete _ below passed.orderly)

/-- A loop keeps what holds before each of its turns. If it ends by itself, the token it ends
at opens no further turn. -/
theorem clears_row (opens : Kind → Bool) {item : Token → Told n α} {item' : Token → Rule n α}
    {failed : ParseState → Prop}
    (each : ∀ token, Clears (d.behind token) (item token).run (item' token).run fun value s =>
      value.elim (failed s) fun _ => d.held kinds s) (m : Nat) (fits : m ≤ n + 1) :
    Clears (d.held kinds) (row opens item m fits) (row opens item' m fits) fun read s =>
      if read.complete then d.held (fun kind => kinds kind && !opens kind) s else failed s := by
  induction m with
  | zero => exact clears_never
  | succ m induction =>
      unfold row
      apply clears_consuming opens
      · intro token
        apply clears_bind (clears_within _ (each token))
        intro first
        cases first with
        | none => exact clears_pure fun _ reached => reached
        | some first =>
            apply clears_bind (induction _)
            intro others
            exact clears_pure fun _ reached => reached
      · exact clears_pure fun _ reached => reached

end Discipline

end TinyPascal
