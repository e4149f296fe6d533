import Mathlib.Data.List.Infix
import TinyPascal.Proofs.Scoping.Itinerary

/-!
# How an itinerary moves between scopes

An itinerary goes into a scope from the scope around it and comes back there. No scope is opened
that was seen before, and none that was closed is seen again.
-/

namespace TinyPascal

set_option autoImplicit false

/-- A stop takes the walk from one scope to another, or keeps it where it is. -/
inductive Stop.Moves : Address → Stop → Address → Prop where
  | naming (scope : Address) (naming : Naming) : Moves scope ⟨scope, .naming naming⟩ scope
  | enter (scope : Address) (index : Nat) : Moves scope ⟨index :: scope, .enter⟩ (index :: scope)
  | leave (scope : Address) (index : Nat) : Moves (index :: scope) ⟨index :: scope, .leave⟩ scope
  | finish : Moves [] ⟨[], .finish⟩ []

inductive Stops.Leads : Address → Stops → Address → Prop where
  | here (scope : Address) : Leads scope [] scope
  | cons {start between goal : Address} {stop : Stop} {others : Stops}
      (first : stop.Moves start between) (rest : Leads between others goal) :
      Leads start (stop :: others) goal

/-- A scope that is opened later is not the scope of an earlier stop; one that was closed is
neither the scope of a later stop nor around it; and nothing comes behind the end. -/
structure Stop.Apart (first later : Stop) : Prop where
  fresh : later.act = .enter → first.scope ≠ later.scope
  closed : first.act = .leave → ¬first.scope <:+ later.scope
  unfinished : first.act ≠ .finish

def Stop.closed? (stop : Stop) : Option Address :=
  match stop.act with
  | .leave | .finish => some stop.scope
  | _ => none

/-- The scopes of a program in the order in which they end. -/
def Program.closings (program : Program) : List Address :=
  program.itinerary.filterMap Stop.closed?

/-- The stop is about a name of `scope`, or lies inside a procedure there whose number is one
of `numbers`. -/
def Stop.Below (scope : Address) (numbers : Nat → Prop) (stop : Stop) : Prop :=
  stop.act ≠ .finish ∧
    ((stop.scope = scope ∧ ∃ naming, stop.act = .naming naming) ∨
      ∃ index, numbers index ∧ (index :: scope) <:+ stop.scope)

namespace Stops

theorem Leads.append {start between goal : Address} {stops others : Stops}
    (first : Leads start stops between) (second : Leads between others goal) :
    Leads start (stops ++ others) goal := by
  induction first with
  | here => exact second
  | cons move rest induction => exact .cons move (induction second)

theorem Leads.split {start goal : Address} {before behind : Stops} {stop : Stop}
    (leads : Leads start (before ++ stop :: behind) goal) :
    ∃ between next, Leads start before between ∧ stop.Moves between next ∧
      Leads next behind goal := by
  induction before generalizing start with
  | nil =>
      cases leads with
      | cons move rest => exact ⟨start, _, .here start, move, rest⟩
  | cons first before induction =>
      cases leads with
      | cons move rest =>
          rcases induction rest with ⟨between, next, front, step, back⟩
          exact ⟨between, next, .cons move front, step, back⟩

/-- The stops of a part of a program that stands in `scope`. -/
structure Placed (scope : Address) (numbers : Nat → Prop) (stops : Stops) : Prop where
  leads : Leads scope stops scope
  apart : stops.Pairwise Stop.Apart
  below : ∀ stop ∈ stops, stop.Below scope numbers
  closed : ∀ stop ∈ stops, stop.scope = scope ∨ ⟨stop.scope, .leave⟩ ∈ stops

end Stops

section Addresses

variable {scope inner outer : Address} {index other : Nat}

theorem not_suffix_outer (deep : (index :: scope) <:+ inner) : ¬inner <:+ scope := by
  intro back
  have long := (deep.trans back).length_le
  rw [List.length_cons] at long
  omega

theorem index_eq_of_suffix (first : (index :: scope) <:+ inner)
    (second : (other :: scope) <:+ inner) : index = other := by
  have same := (List.suffix_of_suffix_length_le first second (by simp)).eq_of_length (by simp)
  exact (List.cons.inj same).1

end Addresses

namespace Stop

variable {scope : Address} {numbers others : Nat → Prop} {stop first later : Stop}

/-- Only what happens to names lies in `scope` itself. -/
theorem Below.inside (below : stop.Below scope numbers)
    (quiet : ∀ naming, stop.act ≠ .naming naming) :
    ∃ index, numbers index ∧ (index :: scope) <:+ stop.scope := by
  cases below.2 with
  | inl here =>
      rcases here.2 with ⟨naming, same⟩
      exact absurd same (quiet naming)
  | inr inside => exact inside

theorem Below.mono (below : stop.Below scope numbers)
    (wider : ∀ index, numbers index → others index) : stop.Below scope others := by
  apply And.intro below.1
  cases below.2 with
  | inl here => exact .inl here
  | inr inside =>
      rcases inside with ⟨index, among, deep⟩
      exact .inr ⟨index, wider index among, deep⟩

theorem Below.apart (before : first.Below scope numbers) (behind : later.Below scope others)
    (distinct : ∀ index, numbers index → ¬others index) : first.Apart later := by
  constructor
  · intro enters same
    rcases behind.inside (by simp [enters]) with ⟨index, among, deep⟩
    rw [← same] at deep
    cases before.2 with
    | inl here =>
        rw [here.1] at deep
        exact not_suffix_outer deep List.suffix_rfl
    | inr inside =>
        rcases inside with ⟨earlier, number, path⟩
        rw [index_eq_of_suffix deep path] at among
        exact distinct earlier number among
  · intro leaves back
    rcases before.inside (by simp [leaves]) with ⟨index, among, deep⟩
    cases behind.2 with
    | inl here =>
        rw [here.1] at back
        exact not_suffix_outer deep back
    | inr inside =>
        rcases inside with ⟨after, number, path⟩
        rw [index_eq_of_suffix (deep.trans back) path] at among
        exact distinct after among number
  · exact before.1

end Stop

namespace Stops.Placed

variable {scope : Address} {numbers others : Nat → Prop} {stops rest : Stops}

theorem within (scope : Address) (namings : List Naming) :
    Placed scope (fun _ => False) (Stops.within scope namings) where
  leads := by
    induction namings with
    | nil => exact .here scope
    | cons naming namings induction => exact .cons (.naming scope naming) induction
  apart := by
    rw [Stops.within, List.pairwise_map]
    apply List.pairwise_of_forall
    intro first later
    exact ⟨by simp, by simp, by simp⟩
  below := by
    intro stop member
    rcases List.mem_map.mp member with ⟨naming, _, same⟩
    rw [← same]
    exact ⟨by simp, .inl ⟨rfl, naming, rfl⟩⟩
  closed := by
    intro stop member
    rcases List.mem_map.mp member with ⟨naming, _, same⟩
    rw [← same]
    exact .inl rfl

theorem append (first : Placed scope numbers stops) (second : Placed scope others rest)
    (distinct : ∀ index, numbers index → ¬others index) :
    Placed scope (fun index => numbers index ∨ others index) (stops ++ rest) where
  leads := first.leads.append second.leads
  apart := by
    rw [List.pairwise_append]
    exact ⟨first.apart, second.apart, fun before member after behind =>
      (first.below before member).apart (second.below after behind) distinct⟩
  below := by
    intro stop member
    rw [List.mem_append] at member
    cases member with
    | inl before => exact (first.below stop before).mono fun _ => .inl
    | inr behind => exact (second.below stop behind).mono fun _ => .inr
  closed := by
    intro stop member
    rw [List.mem_append] at member
    cases member with
    | inl before => exact (first.closed stop before).imp_right (List.mem_append_left _)
    | inr behind => exact (second.closed stop behind).imp_right (List.mem_append_right _)

theorem apart_enter {index : Nat} (inner : Placed (index :: scope) numbers stops) {stop : Stop}
    (member : stop ∈ stops) : Stop.Apart ⟨index :: scope, .enter⟩ stop := by
  constructor
  · intro enters same
    rcases (inner.below stop member).inside (by simp [enters]) with ⟨number, _, deep⟩
    rw [← same] at deep
    exact not_suffix_outer deep List.suffix_rfl
  · simp
  · simp

theorem apart_leave {index : Nat} (inner : Placed (index :: scope) numbers stops) {stop : Stop}
    (member : stop ∈ stops) : Stop.Apart stop ⟨index :: scope, .leave⟩ := by
  constructor
  · simp
  · intro leaves back
    rcases (inner.below stop member).inside (by simp [leaves]) with ⟨number, _, deep⟩
    exact not_suffix_outer deep back
  · exact (inner.below stop member).1

theorem enclosed {index : Nat} (inner : Placed (index :: scope) numbers stops) :
    Placed scope (· = index) (Stops.enclosed (index :: scope) stops) where
  leads :=
    .cons (.enter scope index) (inner.leads.append (.cons (.leave scope index) (.here scope)))
  apart := by
    rw [Stops.enclosed, List.pairwise_cons, List.pairwise_append]
    constructor
    · intro stop member
      rw [List.mem_append, List.mem_singleton] at member
      cases member with
      | inl inside => exact inner.apart_enter inside
      | inr last =>
          rw [last]
          exact ⟨by simp, by simp, by simp⟩
    · exact ⟨inner.apart, List.pairwise_singleton _ _, fun stop member last same => by
        rw [List.mem_singleton.mp same]
        exact inner.apart_leave member⟩
  below := by
    intro stop member
    rw [Stops.enclosed, List.mem_cons, List.mem_append, List.mem_singleton] at member
    rcases member with rfl | inside | rfl
    · exact ⟨by simp, .inr ⟨index, rfl, List.suffix_rfl⟩⟩
    · apply And.intro (inner.below stop inside).1
      apply Or.inr
      apply Exists.intro index
      apply And.intro rfl
      cases (inner.below stop inside).2 with
      | inl here => rw [here.1]
      | inr deeper =>
          rcases deeper with ⟨number, _, deep⟩
          exact (List.suffix_cons number _).trans deep
    · exact ⟨by simp, .inr ⟨index, rfl, List.suffix_rfl⟩⟩
  closed := by
    intro stop member
    rw [Stops.enclosed, List.mem_cons, List.mem_append, List.mem_singleton] at member
    apply Or.inr
    rcases member with rfl | inside | rfl
    · simp [Stops.enclosed]
    · cases inner.closed stop inside with
      | inl here => simp [Stops.enclosed, here]
      | inr left => simp [Stops.enclosed, left]
    · simp [Stops.enclosed]

theorem mono (placed : Placed scope numbers stops)
    (wider : ∀ index, numbers index → others index) : Placed scope others stops :=
  ⟨placed.leads, placed.apart, fun stop member => (placed.below stop member).mono wider,
    placed.closed⟩

end Stops.Placed

namespace Program

open Stops

mutual

theorem procedure_stops_placed (scope : Address) (index : Nat) :
    (program : Program) → Placed scope (· = index) (program.procedureStops scope index)
  | ⟨_, name, params, locals, nested, _, body⟩ => by
      have inside := (Placed.within (index :: scope)
        ((Declared.ofVariables .param params ++
          Declared.ofVariables .var locals).map .declare)).append
          ((procedures_stops_placed (index :: scope) 0 nested).append
            (Placed.within (index :: scope) (Command.namingsAll body)) (by simp)) (by simp)
      rw [procedureStops]
      exact ((Placed.within scope _).append inside.enclosed (by simp)).mono (by simp)

theorem procedures_stops_placed (scope : Address) (index : Nat) :
    (programs : List Program) → Placed scope (index ≤ ·) (proceduresStops scope index programs)
  | [] => ⟨.here scope, .nil, by simp [proceduresStops], by simp [proceduresStops]⟩
  | first :: others => by
      rw [proceduresStops]
      apply ((procedure_stops_placed scope index first).append
        (procedures_stops_placed scope (index + 1) others) (by omega)).mono
      omega

end

theorem itinerary_eq_concat (program : Program) :
    ∃ stops, program.itinerary = stops ++ [⟨[], .finish⟩] ∧ Placed [] (fun _ => True) stops := by
  apply Exists.intro _
  apply And.intro rfl
  exact ((Placed.within [] _).append ((procedures_stops_placed [] 0 program.procedures).append
    (Placed.within [] _) (by simp)) (by simp)).mono (by simp)

theorem itinerary_leads (program : Program) : Leads [] program.itinerary [] := by
  rcases program.itinerary_eq_concat with ⟨stops, same, placed⟩
  rw [same]
  exact placed.leads.append (.cons .finish (.here []))

theorem itinerary_apart (program : Program) : program.itinerary.Pairwise Stop.Apart := by
  rcases program.itinerary_eq_concat with ⟨stops, same, placed⟩
  rw [same, List.pairwise_append]
  apply And.intro placed.apart
  apply And.intro (List.pairwise_singleton _ _)
  intro stop member last finish
  rw [List.mem_singleton.mp finish]
  constructor
  · simp
  · intro leaves back
    rcases (placed.below stop member).inside (by simp [leaves]) with ⟨index, _, deep⟩
    exact not_suffix_outer deep back
  · exact (placed.below stop member).1

theorem closings_nodup (program : Program) : program.closings.Nodup := by
  unfold closings List.Nodup
  rw [List.pairwise_filterMap]
  apply program.itinerary_apart.imp
  intro first later apart scope ends other endsLater same
  cases act : first.act with
  | leave =>
      simp only [Stop.closed?, act, Option.some.injEq] at ends
      have suffix := apart.closed act
      rw [ends, same] at suffix
      unfold Stop.closed? at endsLater
      split at endsLater
      · cases endsLater
        exact suffix List.suffix_rfl
      · cases endsLater
        exact suffix List.suffix_rfl
      · cases endsLater
  | finish => exact apart.unfinished act
  | naming naming => simp [Stop.closed?, act] at ends
  | enter => simp [Stop.closed?, act] at ends

theorem mem_closings {program : Program} {stop : Stop} (member : stop ∈ program.itinerary) :
    stop.scope ∈ program.closings := by
  rcases program.itinerary_eq_concat with ⟨stops, same, placed⟩
  unfold closings
  rw [List.mem_filterMap]
  rw [same, List.mem_append, List.mem_singleton] at member
  rw [same]
  cases member with
  | inl inside =>
      cases placed.closed stop inside with
      | inl global =>
          rw [global]
          exact ⟨⟨[], .finish⟩, by simp, rfl⟩
      | inr left => exact ⟨⟨stop.scope, .leave⟩, List.mem_append_left _ left, rfl⟩
  | inr last =>
      rw [last]
      exact ⟨⟨[], .finish⟩, by simp, rfl⟩

end Program

end TinyPascal
