import Mathlib.Data.List.ReduceOption
import TinyPascal.Proofs.Phrase.Follow
import TinyPascal.Proofs.Phrase.Locality
import TinyPascal.Proofs.Recovery.Fence
import TinyPascal.Proofs.Recovery.Without

/-!
# Cutting a command out of a script

A command that is an element of some list, however deep inside, was read from one
stretch of the script. Anything that counts as broken may stand in its place: the
rest of the script is read as before, and the tree lacks the one command.
-/

namespace TinyPascal

set_option autoImplicit false

namespace Phrase

/-- The script reads `lost` somewhere, in front of a fence. Whatever is broken may
stand there instead, and then `target` is read. -/
def Isolated (lost : Command) (script : Script) (rest : List Token)
    (target : Breakage → Nat → Script → Prop) : Prop :=
  ∃ before mid after : Script, script = before ++ (mid ++ after) ∧
    (∃ n, SingleCommand unbroken n mid (after.tokens ++ rest) lost) ∧
    faces Kind.endsCommand (after.tokens ++ rest) = true ∧
    ∀ (broken : Breakage) (n : Nat) (gap : Script), broken gap (after.tokens ++ rest) →
      faces Kind.isInner gap.tokens = true → (before ++ (gap ++ after)).tokens.length < n →
      target broken n (before ++ (gap ++ after))

/-- What is isolated inside a stretch of a script is isolated in the whole. -/
theorem Isolated.within {lost : Command} {front script back : Script} {rest : List Token}
    {target outerTarget : Breakage → Nat → Script → Prop}
    (inner : Isolated lost script (back.tokens ++ rest) target)
    (outer : ∀ (broken : Breakage) (n : Nat) (left : Script),
      (front ++ (left ++ back)).tokens.length < n →
      (∀ m, left.tokens.length < m → target broken m left) →
      outerTarget broken n (front ++ (left ++ back))) :
    Isolated lost (front ++ (script ++ back)) rest outerTarget := by
  obtain ⟨before, mid, after, rfl, read, ends, rebuild⟩ := inner
  refine ⟨front ++ before, mid, after ++ back, by simp, by simpa using read, by simpa using ends, ?_⟩
  intro broken n gap passed isGap short
  rw [Script.tokens_append, List.append_assoc] at passed
  have same : (front ++ before) ++ (gap ++ (after ++ back)) =
      front ++ ((before ++ (gap ++ after)) ++ back) := by simp
  rw [same] at short ⊢
  exact outer broken n _ short fun m => rebuild broken m gap passed isGap

theorem Isolated.behind {lost : Command} {front script : Script} {rest : List Token}
    {target outerTarget : Breakage → Nat → Script → Prop}
    (inner : Isolated lost script rest target)
    (outer : ∀ (broken : Breakage) (n : Nat) (left : Script), (front ++ left).tokens.length < n →
      (∀ m, left.tokens.length < m → target broken m left) → outerTarget broken n (front ++ left)) :
    Isolated lost (front ++ script) rest outerTarget := by
  rw [← List.append_nil script]
  apply @Isolated.within lost front script [] rest target _ inner
  intro broken n left
  rw [List.append_nil]
  exact outer broken n left

/-- The script reads `found` as an element of a list. Another element may be read in
its place, and then `target` is read. -/
def Replaceable (n : Nat) (found : Command) (script : Script) (rest : List Token)
    (target : Breakage → Nat → Option Command → Script → Prop) : Prop :=
  ∃ before mid after : Script, script = before ++ (mid ++ after) ∧
    SingleCommand unbroken n mid (after.tokens ++ rest) found ∧
    faces Kind.endsCommand (after.tokens ++ rest) = true ∧
    ∀ (broken : Breakage) (m : Nat) (gap : Script) (left : Option Command),
      Element broken (SingleCommand broken m) gap (after.tokens ++ rest) left →
      faces (· = .endKw) (gap.tokens ++ (after.tokens ++ rest)) = false →
      (before ++ (gap ++ after)).tokens.length < m →
      target broken m left (before ++ (gap ++ after))

namespace Replaceable

variable {n : Nat} {lost found left : Command} {front script : Script} {rest : List Token}
  {target outerTarget : Breakage → Nat → Option Command → Script → Prop}

theorem behind (inner : Replaceable n found script rest target)
    (outer : ∀ (broken : Breakage) (m : Nat) (left : Option Command) (script : Script),
      (front ++ script).tokens.length < m → target broken m left script →
      outerTarget broken m left (front ++ script)) :
    Replaceable n found (front ++ script) rest outerTarget := by
  obtain ⟨before, mid, after, rfl, read, ends, rebuild⟩ := inner
  refine ⟨front ++ before, mid, after, by simp, read, ends, ?_⟩
  intro broken m gap left element begun short
  rw [List.append_assoc] at short ⊢
  refine outer broken m left _ short (rebuild broken m gap left element begun ?_)
  rw [Script.tokens_append, List.length_append] at short
  exact Nat.lt_of_le_of_lt (Nat.le_add_left _ _) short

/-- An element that is lost is replaced by a broken one. -/
theorem isolated (replaceable : Replaceable n lost script rest target) :
    Isolated lost script rest fun broken m script => target broken m none script := by
  obtain ⟨before, mid, after, rfl, read, ends, rebuild⟩ := replaceable
  refine ⟨before, mid, after, rfl, ⟨n, read⟩, ends, ?_⟩
  intro broken m gap passed isGap short
  refine rebuild broken m gap none (.inr ⟨passed, rfl⟩) ?_ short
  refine not_faces_of_faces ?_ (faces_append _ isGap)
  intro kind
  cases kind <;> decide

/-- An element that loses something is replaced by what is left of it. -/
theorem isolated_inside (replaceable : Replaceable n found script rest target)
    (inner : ∀ script rest, SingleCommand unbroken n script rest found →
      Isolated lost script rest fun broken m script => SingleCommand broken m script rest left) :
    Isolated lost script rest fun broken m script => target broken m (some left) script := by
  obtain ⟨before, mid, after, rfl, read, ends, rebuild⟩ := replaceable
  apply (inner _ _ read).within
  intro broken m script short each
  have read : SingleCommand broken m script (after.tokens ++ rest) left := by
    refine each m (Nat.lt_of_le_of_lt ?_ short)
    simp only [Script.tokens_append, List.length_append]
    omega
  refine rebuild broken m script (some left) (.inl ⟨left, rfl, read⟩) ?_ short
  refine not_faces_of_faces ?_ (faces_append _ (command_starts read))
  intro kind
  cases kind <;> decide

end Replaceable

variable {n : Nat} {script : Script} {rest : List Token} {front behind : List Command}
  {found : Command}

theorem reduce_option_cons {α : Type} (value : Option α) (others : List (Option α)) :
    (value :: others).reduceOption = value.toList ++ others.reduceOption := by
  cases value with
  | none => exact List.reduceOption_cons_of_none _
  | some value => exact List.reduceOption_cons_of_some _ _

theorem ends_series {item : Token → Phrase (Option Command)} {values : List (Option Command)}
    (series : Series (· = .semicolon) item script rest values)
    (ends : faces Kind.endsCommand rest = true) :
    faces Kind.endsCommand (script.tokens ++ rest) = true := by
  cases series with
  | stop => exact ends
  | more opens =>
      rw [Script.tokens_read, List.cons_append, faces_cons, of_decide_eq_true opens]
      rfl

theorem replaceable_behind {values : List (Option Command)}
    (series : Series (· = .semicolon) (Behind (Element unbroken (SingleCommand unbroken n))) script
      rest values)
    (ends : faces Kind.endsCommand rest = true)
    (listed : values.reduceOption = front ++ found :: behind) :
    Replaceable n found script rest fun broken m left replaced =>
      SameHead (script.tokens ++ rest) (replaced.tokens ++ rest) ∧
        ∃ others, Series (· = .semicolon) (Behind (Element broken (SingleCommand broken m)))
            replaced rest others ∧ others.reduceOption = front ++ (left.toList ++ behind) := by
  induction series generalizing front with
  | stop => cases front <;> cases listed
  | @more semicolon first back rest value others opens head tail induction =>
      -- Where the element stands further behind, what stands here stays.
      have later : ∀ {front : List Command}, others.reduceOption = front ++ found :: behind →
          Replaceable n found (.read semicolon :: first ++ back) rest fun broken m left replaced =>
            SameHead (semicolon :: (first.tokens ++ back.tokens) ++ rest) (replaced.tokens ++ rest) ∧
              ∃ others, Series (· = .semicolon) (Behind (Element broken (SingleCommand broken m)))
                  replaced rest others ∧
                others.reduceOption = value.toList ++ (front ++ (left.toList ++ behind)) := by
        intro front listed
        apply (induction ends listed).behind
        rintro broken m left script short ⟨same, others, series, found⟩
        simp only [List.cons_append, Script.tokens_read, Script.tokens_append, List.length_cons,
          List.length_append] at short
        refine ⟨.cons _ _ _, value :: others, .more opens ?_ series, ?_⟩
        · exact moves_behind (moves_command n m) semicolon _ _ _ _ head (by omega) same
        · rw [reduce_option_cons, found]
      rw [reduce_option_cons] at listed
      rcases head with ⟨-, _, -, -, rfl⟩ | ⟨-, ⟨command, rfl, read⟩ | ⟨impossible, -⟩⟩
      · exact later listed
      · cases front with
        | nil =>
            obtain ⟨rfl, rfl⟩ := List.cons.inj listed
            refine ⟨[.read semicolon], first, back, rfl, read, ends_series tail ends, ?_⟩
            intro broken m gap left element begun short
            simp only [List.cons_append, List.nil_append, Script.tokens_read, Script.tokens_append,
              List.length_cons, List.length_append] at short
            have series : Series (· = .semicolon) (Behind (Element broken (SingleCommand broken m)))
                (.read semicolon :: (gap ++ back)) rest (left :: others) :=
              .more opens (.inr ⟨begun, element⟩)
                (moves_series (moves_behind (moves_command n m)) _ _ _ _ tail (by omega) rfl)
            exact ⟨.cons _ _ _, left :: others, series, reduce_option_cons left others⟩
        | cons _ front =>
            obtain ⟨rfl, further⟩ := List.cons.inj listed
            exact later further
      · exact impossible.elim

theorem replaceable_body {values : List Command} (read : Body unbroken n script rest values)
    (ended : faces (· = .endKw) rest = true) (listed : values = front ++ found :: behind) :
    Replaceable n found script rest fun broken m left replaced =>
      Body broken m replaced rest (front ++ (left.toList ++ behind)) := by
  have ends : faces Kind.endsCommand rest = true := by
    cases rest with
    | nil => cases ended
    | cons token others =>
        rw [faces_cons, of_decide_eq_true ended]
        rfl
  cases read with
  | none => cases front <;> cases listed
  | @some first back _ value others begun head tail =>
      rw [reduce_option_cons] at listed
      rcases head with ⟨command, rfl, read⟩ | ⟨impossible, -⟩
      · cases front with
        | nil =>
            obtain ⟨rfl, rfl⟩ := List.cons.inj listed
            refine ⟨[], first, back, rfl, read, ends_series tail ends, ?_⟩
            intro broken m gap left element begun short
            simp only [List.nil_append, Script.tokens_append, List.length_append] at short
            have list := Commands.some begun element
              (moves_series (moves_behind (moves_command n m)) _ _ _ _ tail (by omega) rfl)
            rwa [reduce_option_cons] at list
        | cons _ front =>
            obtain ⟨rfl, further⟩ := List.cons.inj listed
            apply (replaceable_behind tail ends further).behind
            rintro broken m left script short ⟨same, others, series, found⟩
            rw [Script.tokens_append, List.length_append] at short
            have list := Commands.some (((same.append _).faces _).trans begun)
              (moves_element (moves_command n m) _ _ _ _ (.inl ⟨_, rfl, read⟩) (by omega) same)
              series
            rw [reduce_option_cons, found] at list
            exact list
      · exact impossible.elim

/-- Of a command that the script reads, `left` is left where `lost` is broken. -/
abbrev Cut (lost left : Command) (script : Script) (rest : List Token) : Prop :=
  Isolated lost script rest fun broken m script => SingleCommand broken m script rest left

/-- A command is cut inside another one if the other one can be put together again around
whatever is left of it. -/
theorem Cut.inside {lost inner whole : Command} {script : Script} {rest : List Token}
    (build : Script → Script) (keyword : Token) (front back : Script)
    (shape : ∀ script, build script = .read keyword :: (front ++ (script ++ back)))
    (cut : Cut lost inner script (back.tokens ++ rest))
    (outer : ∀ (broken : Breakage) (m : Nat) (script : Script),
      front.tokens.length + back.tokens.length ≤ m →
      SingleCommand broken m script (back.tokens ++ rest) inner →
      SingleCommand broken (m + 1) (build script) rest whole) :
    Cut lost whole (build script) rest := by
  rw [shape]
  refine @Isolated.within lost (.read keyword :: front) script back rest _ _ cut ?_
  intro broken m script short each
  obtain ⟨m, rfl⟩ := bound_succ short
  simp only [List.cons_append, Script.tokens_read, Script.tokens_append, List.length_cons,
    List.length_append] at short
  have whole := outer broken m script (by omega) (each m (by omega))
  rwa [shape] at whole

theorem cut_block {lost : Command} {whole left : List Command} {opening : Token}
    (inside : ∀ n script rest, Body unbroken n script rest whole →
      faces (· = .endKw) rest = true →
      Isolated lost script rest fun broken m script => Body broken m script rest left)
    (read : SingleCommand unbroken n script rest (.block opening whole)) :
    Cut lost (.block opening left) script rest := by
  cases n with
  | zero => exact read.elim
  | succ n =>
      cases read with
      | @block _ closing inner _ _ opens list closes =>
          refine @Isolated.within lost [.read opening] inner [.read closing] rest _ _
            (inside n _ _ list (by simp [closes])) ?_
          intro broken m left short each
          obtain ⟨m, rfl⟩ := bound_succ short
          simp only [List.cons_append, List.nil_append, Script.tokens_read, Script.tokens_append,
            List.length_cons, List.length_append] at short
          exact .block opens (each m (by omega)) closes

section Branches

variable {keyword thenWord elseWord target op toWord doWord : Token} {before middle back : Script}
  {condition start bound : Expr} {lost branch otherwise body left : Command}

theorem cut_if_then (isIf : keyword.kind = .ifKw)
    (test : Expression n before (thenWord :: (back.tokens ++ rest)) condition)
    (isThen : thenWord.kind = .thenKw) (alone : faces (· = .elseKw) rest = false)
    (cut : Cut lost left back rest) :
    Cut lost (.ifThen keyword condition left) (.read keyword :: (before ++ .read thenWord :: back))
      rest := by
  refine Cut.inside (fun back => .read keyword :: (before ++ .read thenWord :: back)) keyword
    (before ++ [.read thenWord]) [] (by simp) cut ?_
  intro broken m back short yes
  exact .ifThen isIf (moves_expression n m _ _ _ _ test (by grind) (.cons _ _ _)) isThen yes alone

theorem cut_then_branch (isIf : keyword.kind = .ifKw)
    (test : Expression n before (thenWord :: (middle.tokens ++ elseWord :: (back.tokens ++ rest)))
      condition)
    (isThen : thenWord.kind = .thenKw) (isElse : elseWord.kind = .elseKw)
    (no : SingleCommand unbroken n back rest otherwise)
    (cut : Cut lost left middle (elseWord :: (back.tokens ++ rest))) :
    Cut lost (.ifElse keyword condition left otherwise)
      (.read keyword :: (before ++ .read thenWord :: (middle ++ .read elseWord :: back))) rest := by
  refine Cut.inside
    (fun middle => .read keyword :: (before ++ .read thenWord :: (middle ++ .read elseWord :: back)))
    keyword (before ++ [.read thenWord]) (.read elseWord :: back) (by simp) cut ?_
  intro broken m middle short yes
  exact .ifElse isIf (moves_expression n m _ _ _ _ test (by grind) (.cons _ _ _)) isThen yes isElse
    (moves_command n m _ _ _ _ no (by grind) rfl)

theorem cut_else_branch (isIf : keyword.kind = .ifKw)
    (test : Expression n before (thenWord :: (middle.tokens ++ elseWord :: (back.tokens ++ rest)))
      condition)
    (isThen : thenWord.kind = .thenKw)
    (yes : SingleCommand unbroken n middle (elseWord :: (back.tokens ++ rest)) branch)
    (isElse : elseWord.kind = .elseKw) (cut : Cut lost left back rest) :
    Cut lost (.ifElse keyword condition branch left)
      (.read keyword :: (before ++ .read thenWord :: (middle ++ .read elseWord :: back))) rest := by
  refine Cut.inside
    (fun back => .read keyword :: (before ++ .read thenWord :: (middle ++ .read elseWord :: back)))
    keyword (before ++ .read thenWord :: (middle ++ [.read elseWord])) [] (by simp) cut ?_
  intro broken m back short no
  exact .ifElse isIf (moves_expression n m _ _ _ _ test (by grind) (.cons _ _ _)) isThen
    (moves_command n m _ _ _ _ yes (by grind) (.cons _ _ _)) isElse no

theorem cut_while (isWhile : keyword.kind = .whileKw)
    (test : Expression n before (doWord :: (back.tokens ++ rest)) condition)
    (isDo : doWord.kind = .doKw) (cut : Cut lost left back rest) :
    Cut lost (.whileDo keyword condition left) (.read keyword :: (before ++ .read doWord :: back))
      rest := by
  refine Cut.inside (fun back => .read keyword :: (before ++ .read doWord :: back)) keyword
    (before ++ [.read doWord]) [] (by simp) cut ?_
  intro broken m back short repeated
  exact .whileDo isWhile (moves_expression n m _ _ _ _ test (by grind) (.cons _ _ _)) isDo repeated

theorem cut_for (isFor : keyword.kind = .forKw) (isName : target.kind = .ident)
    (assigns : op.kind = .assign)
    (begins : Expression n before (toWord :: (middle.tokens ++ doWord :: (back.tokens ++ rest))) start)
    (isTo : toWord.kind = .toKw ∨ toWord.kind = .downtoKw)
    (upTo : Expression n middle (doWord :: (back.tokens ++ rest)) bound)
    (isDo : doWord.kind = .doKw) (cut : Cut lost left back rest) :
    Cut lost (.forDo keyword ⟨op, target, start⟩ (.ofKind toWord.kind) bound left)
      (.read keyword :: .read target :: .read op ::
        (before ++ .read toWord :: (middle ++ .read doWord :: back))) rest := by
  refine Cut.inside
    (fun back => .read keyword :: .read target :: .read op ::
      (before ++ .read toWord :: (middle ++ .read doWord :: back)))
    keyword (.read target :: .read op :: (before ++ .read toWord :: (middle ++ [.read doWord]))) []
    (by simp) cut ?_
  intro broken m back short repeated
  exact .forDo isFor isName assigns
    (moves_expression n m _ _ _ _ begins (by grind) (.cons _ _ _)) isTo
    (moves_expression n m _ _ _ _ upTo (by grind) (.cons _ _ _)) isDo repeated

end Branches

/-- Whatever is left out of a command, however deep inside, may be broken in the text. -/
theorem cut_command {lost whole left : Command} (without : Command.Without lost whole left) :
    ∀ n script rest, SingleCommand unbroken n script rest whole → Cut lost left script rest := by
  induction without with
  | element opening front behind =>
      intro n script rest read
      refine cut_block ?_ read
      intro n script rest list ended
      exact (replaceable_body list ended rfl).isolated
  | block opening front behind inner induction =>
      intro n script rest read
      refine cut_block ?_ read
      intro n script rest list ended
      exact (replaceable_body list ended rfl).isolated_inside (induction n)
  | ifThen keyword condition inner induction =>
      intro n script rest read
      obtain _ | n := n
      · exact read.elim
      cases read with
      | ifThen isIf test isThen yes alone =>
          exact cut_if_then isIf test isThen alone (induction n _ _ yes)
  | thenBranch keyword condition otherwise inner induction =>
      intro n script rest read
      obtain _ | n := n
      · exact read.elim
      cases read with
      | ifElse isIf test isThen yes isElse no =>
          exact cut_then_branch isIf test isThen isElse no (induction n _ _ yes)
  | elseBranch keyword condition branch inner induction =>
      intro n script rest read
      obtain _ | n := n
      · exact read.elim
      cases read with
      | ifElse isIf test isThen yes isElse no =>
          exact cut_else_branch isIf test isThen yes isElse (induction n _ _ no)
  | whileDo keyword condition inner induction =>
      intro n script rest read
      obtain _ | n := n
      · exact read.elim
      cases read with
      | whileDo isWhile test isDo repeated =>
          exact cut_while isWhile test isDo (induction n _ _ repeated)
  | forDo keyword start direction bound inner induction =>
      intro n script rest read
      obtain _ | n := n
      · exact read.elim
      cases read with
      | forDo isFor isName assigns begins isTo upTo isDo repeated =>
          exact cut_for isFor isName assigns begins isTo upTo isDo (induction n _ _ repeated)

end Phrase

end TinyPascal
