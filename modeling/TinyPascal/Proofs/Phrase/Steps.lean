import TinyPascal.Proofs.Phrase.Basic

/-!
# What the steps of the parser read

One statement for each step and rule that the grammar is made of. From here on
no rule of the grammar has to be run in a proof: its phrase is put together from
the phrases of its parts.
-/

namespace TinyPascal

set_option autoImplicit false

namespace Step

open Phrase

variable {n : Nat} {α β : Type}

theorem current_realizes :
    (current : Step n Token).Realizes
      fun script rest value => script = [] ∧ rest.head? = some value where
  lasting := by
    intro s bounded failed
    exact failed
  sound := by
    intro s bounded ready clean
    exact ⟨[], ⟨rfl, s.head_tokens⟩, .refl s⟩
  complete := by
    rintro s bounded script rest value ready offered ⟨rfl, head⟩
    rw [Script.tokens_nil, List.nil_append] at offered
    rw [← offered, s.head_tokens] at head
    exact ⟨Option.some.inj head, .refl s⟩

theorem sees_realizes (kinds : Kind → Bool) :
    (sees kinds : Step n Bool).Realizes
      fun script rest value => script = [] ∧ value = faces kinds rest where
  lasting := by
    intro s bounded failed
    exact failed
  sound := by
    intro s bounded ready clean
    exact ⟨[], ⟨rfl, (s.faces_tokens kinds).symm⟩, .refl s⟩
  complete := by
    rintro s bounded script rest value ready offered ⟨rfl, same⟩
    rw [Script.tokens_nil, List.nil_append] at offered
    rw [← offered, s.faces_tokens kinds] at same
    exact ⟨same.symm, .refl s⟩

theorem warn_realizes (token : Token) (problem : SyntacticProblem) :
    (warn token problem : Step n Unit).Realizes
      fun script _ _ => script = [Script.warning token problem] where
  lasting := by
    intro s bounded failed
    exact failed
  sound := by
    intro s bounded ready clean
    exact ⟨_, rfl, s.follows_warn token problem⟩
  complete := by
    rintro s bounded script rest value ready offered rfl
    exact ⟨rfl, s.follows_warn token problem⟩

theorem recover_state {s : ParseState} (stops : Kind → Bool) (bounded : s.unread.length < n)
    (calm : s.panicking = false) : (recover stops s bounded).state = s := by
  simp [recover, calm]

theorem recover_realizes (stops : Kind → Bool) :
    (recover stops : Step n Unit).Realizes (silent ()) where
  lasting := by
    intro s bounded failed
    unfold recover
    split
    · exact ParseState.had_error_skip_to stops failed
    · exact failed
  sound := by
    intro s bounded ready clean
    rw [recover_state stops bounded ready.calm]
    exact ⟨[], ⟨rfl, rfl⟩, .refl s⟩
  complete := by
    rintro s bounded script rest value ready offered ⟨rfl, -⟩
    rw [recover_state stops bounded ready.calm]
    exact ⟨rfl, .refl s⟩

theorem calm_realizes : (calm : Step n Unit).Realizes (silent ()) where
  lasting := by
    intro s bounded failed
    exact failed
  sound := by
    intro s bounded ready clean
    have same : (calm s bounded).state = s := ready.calm_eq
    rw [same]
    exact ⟨[], ⟨rfl, rfl⟩, .refl s⟩
  complete := by
    rintro s bounded script rest value ready offered ⟨rfl, -⟩
    have same : (calm s bounded).state = s := ready.calm_eq
    rw [same]
    exact ⟨rfl, .refl s⟩

theorem panicking_realizes : (panicking : Step n Bool).Realizes (silent false) where
  lasting := by
    intro s bounded failed
    exact failed
  sound := by
    intro s bounded ready clean
    exact ⟨[], ⟨rfl, ready.calm⟩, .refl s⟩
  complete := by
    rintro s bounded script rest value ready offered ⟨rfl, rfl⟩
    exact ⟨ready.calm, .refl s⟩

theorem take_realizes {kinds : Kind → Bool} (noEnd : kinds .eof = false) :
    (take kinds : Step n (Option Token)).Realizes (maybe kinds) where
  lasting := by
    intro s bounded failed
    unfold take
    split
    · exact failed
    · split
      · exact ParseState.had_error_advance failed
      · exact failed
  sound := by
    intro s bounded ready clean
    cases faced : kinds s.current.kind with
    | false =>
        obtain ⟨value, state⟩ := take_of_not_faces (n := n) bounded faced
        rw [value, state]
        exact ⟨[], .inl ⟨rfl, (s.faces_tokens kinds).trans faced, rfl⟩, .refl s⟩
    | true =>
        obtain ⟨arrival, rest, unread, same⟩ := ready.unread_of_faces noEnd faced
        rw [← same] at faced
        obtain ⟨value, state⟩ := take_of_faces (n := n) bounded unread faced
        rw [value, state]
        exact ⟨_, .inr ⟨arrival.token, rfl, faced, rfl⟩, ParseState.follows_advance ready.toOrderly unread⟩
  complete := by
    rintro s bounded script rest value ready offered (⟨rfl, missed, rfl⟩ | ⟨token, rfl, faced, rfl⟩)
    · rw [Script.tokens_nil, List.nil_append] at offered
      rw [← offered, s.faces_tokens kinds] at missed
      obtain ⟨value, state⟩ := take_of_not_faces (n := n) bounded missed
      exact ⟨value, state.symm ▸ .refl s⟩
    · obtain ⟨arrival, others, unread, rfl⟩ :=
        ParseState.unread_of_tokens ready offered (ne_eof_of_kinds noEnd faced)
      obtain ⟨value, state⟩ := take_of_faces (n := n) bounded unread faced
      exact ⟨value, state.symm ▸ ParseState.follows_advance ready.toOrderly unread⟩

theorem take_bind_realizes {kinds : Kind → Bool} {next : Option Token → Step n α}
    {found : Token → Phrase α} {missing : Phrase α} (noEnd : kinds .eof = false)
    (some : ∀ token, (next (some token)).Realizes (found token))
    (none : (next none).Realizes missing) :
    (take kinds >>= next).Realizes (choice kinds found missing) := by
  have tails : ∀ token : Option Token, (next token).Realizes (token.elim missing found) := by
    intro token
    cases token with
    | none => exact none
    | some token => exact some token
  apply ((take_realizes noEnd).bind tails).congr
  intro script rest value
  constructor
  · rintro ⟨_, back, _, rfl, ⟨rfl, missed, rfl⟩ | ⟨token, rfl, faced, rfl⟩, read⟩
    · exact .inr ⟨missed, read⟩
    · exact .inl ⟨token, back, rfl, faced, read⟩
  · rintro (⟨token, back, rfl, faced, read⟩ | ⟨missed, read⟩)
    · exact ⟨[_], back, .some token, rfl, .inr ⟨token, rfl, faced, rfl⟩, read⟩
    · exact ⟨[], script, .none, rfl, .inl ⟨rfl, missed, rfl⟩, read⟩

theorem sees_bind_realizes {kinds : Kind → Bool} {next : Bool → Step n α} {yes no : Phrase α}
    (seen : (next true).Realizes yes) (unseen : (next false).Realizes no) :
    (sees kinds >>= next).Realizes (fork kinds yes no) := by
  have tails : ∀ faced : Bool, (next faced).Realizes
      (match faced with
        | true => yes
        | false => no) := by
    intro faced
    cases faced
    · exact unseen
    · exact seen
  apply ((sees_realizes kinds).bind tails).congr
  intro script rest value
  constructor
  · rintro ⟨_, back, faced, rfl, ⟨rfl, same⟩, read⟩
    cases faced
    · exact .inr ⟨same.symm, read⟩
    · exact .inl ⟨same.symm, read⟩
  · rintro (⟨same, read⟩ | ⟨same, read⟩)
    · exact ⟨[], script, true, rfl, ⟨rfl, same.symm⟩, read⟩
    · exact ⟨[], script, false, rfl, ⟨rfl, same.symm⟩, read⟩

theorem warn_bind_realizes {token : Token} {problem : SyntacticProblem} {next : Unit → Step n α}
    {phrase : Phrase α} (realizes : (next ()).Realizes phrase) :
    (warn token problem >>= next).Realizes (noting (Script.warning token problem) phrase) := by
  apply ((warn_realizes token problem).bind fun _ => realizes).congr
  intro script rest value
  constructor
  · rintro ⟨_, back, _, rfl, rfl, read⟩
    exact ⟨back, rfl, read⟩
  · rintro ⟨back, rfl, read⟩
    exact ⟨[_], back, (), rfl, rfl, read⟩

theorem silent_bind_realizes {step : Step n Unit} {next : Unit → Step n α} {phrase : Phrase α}
    (quiet : step.Realizes (silent ())) (realizes : (next ()).Realizes phrase) :
    (step >>= next).Realizes phrase := by
  apply (quiet.bind fun _ => realizes).congr
  intro script rest value
  constructor
  · rintro ⟨_, back, _, rfl, ⟨rfl, -⟩, read⟩
    exact read
  · intro read
    exact ⟨[], script, (), rfl, ⟨rfl, rfl⟩, read⟩

theorem consuming_realizes {kinds : Kind → Bool} {behind : Token → Step n α}
    {otherwise : Step (n + 1) α} {tail : Token → Phrase α} {other : Phrase α}
    (noEnd : kinds .eof = false) (behindRealizes : ∀ token, (behind token).Realizes (tail token))
    (otherRealizes : otherwise.Realizes other) :
    (consuming kinds behind otherwise).Realizes (choice kinds tail other) where
  lasting := by
    intro s bounded failed
    unfold consuming
    split
    · exact otherRealizes.lasting s bounded failed
    · split
      · exact (behindRealizes _).lasting _ _ (ParseState.had_error_advance failed)
      · exact otherRealizes.lasting s bounded failed
  sound := by
    intro s bounded ready clean
    cases faced : kinds s.current.kind with
    | false =>
        rw [consuming_of_not_faces bounded faced] at clean ⊢
        obtain ⟨script, read, follows⟩ := otherRealizes.sound s bounded ready clean
        refine ⟨script, .inr ⟨?_, read⟩, follows⟩
        rw [← follows.tokens]
        exact (s.faces_tokens kinds).trans faced
    | true =>
        obtain ⟨arrival, rest, unread, same⟩ := ready.unread_of_faces noEnd faced
        rw [← same] at faced
        obtain ⟨fits, value, state⟩ := consuming_of_faces behind otherwise bounded unread faced
        have consumed := ParseState.follows_advance ready.toOrderly unread
        rw [value, state]
        rw [state] at clean
        obtain ⟨back, read, follows⟩ :=
          (behindRealizes arrival.token).sound s.advance fits (consumed.ready ready) clean
        exact ⟨_, .inl ⟨arrival.token, back, rfl, faced, read⟩, consumed.trans follows⟩
  complete := by
    rintro s bounded script rest value ready offered
      (⟨token, back, rfl, faced, read⟩ | ⟨missed, read⟩)
    · obtain ⟨arrival, others, unread, rfl⟩ :=
        ParseState.unread_of_tokens ready offered (ne_eof_of_kinds noEnd faced)
      obtain ⟨fits, sameValue, sameState⟩ := consuming_of_faces behind otherwise bounded unread faced
      have consumed := ParseState.follows_advance ready.toOrderly unread
      rw [sameValue, sameState]
      obtain ⟨found, follows⟩ := (behindRealizes arrival.token).complete s.advance fits back rest
        value (consumed.ready ready) (consumed.tokens_eq offered) read
      exact ⟨found, consumed.trans follows⟩
    · rw [← offered, s.faces_tokens kinds] at missed
      rw [consuming_of_not_faces bounded missed]
      exact otherRealizes.complete s bounded script rest value ready offered read

/-- What follows an item of a row: more of the row, unless the item was
abandoned. -/
theorem rest_of_row_realizes {others : Step n (Row α)} {phrase : Phrase (Row α)}
    (realizes : others.Realizes phrase) (first : Option α) :
    (match first with
      | none => pure ⟨[], false⟩
      | some first => do
          let others ← others
          pure { others with items := first :: others.items } : Step n (Row α)).Realizes
      (match first with
        | none => silent ⟨[], false⟩
        | some first => seq phrase fun others => silent { others with items := first :: others.items }) := by
  cases first with
  | none => exact .pure _
  | some first => exact realizes.bind fun others => .pure _

theorem row_realizes {kinds : Kind → Bool} {item : Token → Rule n α} {phrase : Token → Phrase α}
    (noEnd : kinds .eof = false)
    (realizes : ∀ opening, (item opening).run.Realizes (phrase opening).kept) :
    ∀ (m : Nat) (fits : m ≤ n + 1), (row kinds item m fits).Realizes
      fun script rest value => value.complete = true ∧ Series kinds phrase script rest value.items := by
  intro m
  induction m with
  | zero =>
      intro fits
      exact .never
  | succ m induction =>
      intro fits
      unfold row
      refine (consuming_realizes noEnd (fun opening => .bind ((realizes opening).within _)
        (rest_of_row_realizes (induction _))) (.pure _)).congr ?_
      rintro script rest ⟨items, complete⟩
      constructor
      · rintro (⟨opening, back, rfl, opens, front, tail, _, rfl, ⟨first, rfl, head⟩,
          last, _, others, rfl, ⟨complete, series⟩, rfl, same⟩ | ⟨ended, rfl, same⟩)
        · cases same
          rw [List.append_nil] at head ⊢
          exact ⟨complete, .more opens head series⟩
        · cases same
          exact ⟨rfl, .stop ended⟩
      · rintro ⟨rfl, series⟩
        cases series with
        | stop ended => exact .inr ⟨ended, rfl, rfl⟩
        | more opens head tail =>
            exact .inl ⟨_, _, rfl, opens, _, _, _, rfl, ⟨_, rfl, head⟩,
              _, [], ⟨_, true⟩, (List.append_nil _).symm, ⟨rfl, tail⟩, rfl, rfl⟩

end Step

end TinyPascal
