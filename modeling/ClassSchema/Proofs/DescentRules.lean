import ClassSchema.Proofs.DescentSteps
import Mathlib.Data.Nat.Init
import Mathlib.Logic.Function.Iterate
import Mathlib.Order.Basic

/-!
# The descent reads what the machine reads

Every procedure of the descent ends, moves as it may, and comes to what the machine makes of the same tokens. This is proved of
each procedure from those that it calls, for calls in which the same number of members is open, on the assumption that members
inside are read so (`ReadsMembers`). The loops end because they leave less of the text, and the calls inside one another end
because members at the limit are refused (`readsMembers`).

What each procedure does is said by its equation (`Procedures.outermost`). A run that ends is also a run of procedures that call
one another only so deep (`outermost_procedures`), and those can be run.

The main statement is `Descent.whole_disciplined`.
-/

namespace ClassSchema

namespace Descent

open Place

variable {limit : Nat} {frames : List Frame} {members : List TypeExpr} {e : TypeExpr}

/-! ## The procedures of the rules -/

/-- Procedures for the rules and for the loops in them. -/
structure Procedures where
  union : List Rule → Procedure TypeExpr
  moreMembers : List Rule → List TypeExpr → TypeExpr → Procedure TypeExpr
  member : List Rule → Procedure TypeExpr
  memberInner : List Rule → Procedure TypeExpr
  suffixes : Nat → TypeExpr → Procedure TypeExpr
  primary : List Rule → Procedure TypeExpr
  list : List Rule → Bracket → Procedure (List TypeExpr)
  moreEntries : List Rule → Bracket → List TypeExpr → Procedure (List TypeExpr)

section Equations

variable (limit : Nat) (cs : List Char)

/-- What is read after a name, given how entries are read. -/
def afterName (entries : Bracket → Procedure (List TypeExpr)) (name : String) : Procedure TypeExpr := do
  if ← eat cs '<' then genericOf cs name (← entries .angle)
  else if ← peekIs cs '{' then
    if TypeExpr.isArrayName name then
      let _ ← eat cs '{'
      return .tuple (← entries .brace)
    else throw (.shapeBase name)
  else return .ident name

/-- The equations of the procedures: what each of them does, given what they do where they call one another. -/
def Procedures.outermost (inner : Procedures) : Procedures where
  union around := Descent.noted .union around (inner.member (.union :: around) >>= inner.moreMembers (.union :: around) [])
  moreMembers around before last := eat cs '|' >>= fun found =>
    if found then inner.member around >>= inner.moreMembers around (before ++ [last]) else pure (unionOf before last)
  member around := Descent.noted .member around (descend limit >>= fun _ => lowered (inner.memberInner (.member :: around)))
  memberInner around := Descent.noted .memberInner around (eat cs '?' >>= fun found =>
    if found then inner.member (.memberInner :: around) >>= fun e => pure e.nullable
    else inner.primary (.memberInner :: around) >>= inner.suffixes 0)
  suffixes wraps expr := eat cs '[' >>= fun found =>
    if found then expect cs ']' .closeSquare >>= fun _ => liftM progress >>= fun p =>
      if limit < p.depth + (wraps + 1) then throw (.tooDeep limit) else inner.suffixes (wraps + 1) expr.arrayOf
    else pure expr
  primary around := Descent.noted .primary around (ident cs >>= afterName cs (inner.list (.primary :: around)))
  list around bracket := Descent.noted .list around (eat cs bracket.close >>= fun found =>
    if found then pure [] else inner.moreEntries (.list :: around) bracket [])
  moreEntries around bracket done := inner.union around >>= fun e => eat cs ',' >>= fun found =>
    if found then inner.moreEntries around bracket (done ++ [e])
    else expect cs bracket.close (.entryEnd bracket) >>= fun _ => pure (done ++ [e])

/-- The procedures of the descent. -/
def procedures : Procedures where
  union := union limit cs
  moreMembers := moreMembers limit cs
  member := member limit cs
  memberInner := memberInner limit cs
  suffixes := suffixes limit cs
  primary := primary limit cs
  list := list limit cs
  moreEntries := moreEntries limit cs

variable {limit cs} {around : List Rule}

theorem union_eq : union limit cs around = ((procedures limit cs).outermost limit cs).union around := by
  rw [union]
  rfl

theorem moreMembers_eq {before : List TypeExpr} {last : TypeExpr} :
    moreMembers limit cs around before last = ((procedures limit cs).outermost limit cs).moreMembers around before last := by
  rw [moreMembers]
  rfl

theorem member_eq : member limit cs around = ((procedures limit cs).outermost limit cs).member around := by
  rw [member]
  rfl

theorem memberInner_eq : memberInner limit cs around = ((procedures limit cs).outermost limit cs).memberInner around := by
  rw [memberInner]
  rfl

theorem suffixes_eq {wraps : Nat} {expr : TypeExpr} :
    suffixes limit cs wraps expr = ((procedures limit cs).outermost limit cs).suffixes wraps expr := by
  rw [suffixes]
  rfl

theorem primary_eq : primary limit cs around = ((procedures limit cs).outermost limit cs).primary around := by
  rw [primary]
  rfl

theorem list_eq {bracket : Bracket} :
    list limit cs around bracket = ((procedures limit cs).outermost limit cs).list around bracket := by
  rw [list]
  rfl

theorem moreEntries_eq {bracket : Bracket} {done : List TypeExpr} :
    moreEntries limit cs around bracket done = ((procedures limit cs).outermost limit cs).moreEntries around bracket done := by
  rw [moreEntries]
  rfl

/-- The procedures of the descent call themselves. -/
theorem outermost_procedures : (procedures limit cs).outermost limit cs = procedures limit cs := by
  rw [procedures, Procedures.mk.injEq]
  exact ⟨funext fun _ => union_eq.symm, funext fun _ => funext fun _ => funext fun _ => moreMembers_eq.symm,
    funext fun _ => member_eq.symm, funext fun _ => memberInner_eq.symm, funext fun _ => funext fun _ => suffixes_eq.symm,
    funext fun _ => primary_eq.symm, funext fun _ => funext fun _ => list_eq.symm,
    funext fun _ => funext fun _ => funext fun _ => moreEntries_eq.symm⟩

end Equations

/-! ## Rule by rule -/

section Rules

variable {cs : List Char} {depth : Nat} {around : List Rule} {l : Ledger}

/-- While this many members are open, a member is read as the machine reads it. -/
def ReadsMembers (limit : Nat) (cs : List Char) (depth : Nat) : Prop :=
  ∀ (around : List Rule) (l : Ledger) (frames : List Frame) (members : List TypeExpr), Entered limit cs around l →
    l.progress.depth = depth → frames.length = depth →
      Performs limit cs l (member limit cs around) (result limit ⟨frames, members, .start⟩ (tokensAt cs l.progress.pos))
        fun e pos' => l.progress.pos < pos' ∧ result limit ⟨frames, members, .start⟩ (tokensAt cs l.progress.pos) =
          afterMember limit frames members e (tokensAt cs pos')

/-- The other members of a union. -/
theorem performs_moreMembers {before : List TypeExpr} {last : TypeExpr} (hmembers : ReadsMembers limit cs depth)
    (hentered : Entered limit cs around l) (hdepth : l.progress.depth = depth) (hframes : frames.length = depth)
    (hunion : frames.head? ≠ some .nullable) :
    Performs limit cs l (moreMembers limit cs around before last)
      (afterMember limit frames before last (tokensAt cs l.progress.pos)) fun e pos' =>
        afterMember limit frames before last (tokensAt cs l.progress.pos) = afterMember limit frames [] e (tokensAt cs pos') ∧
          NotNext '|' (tokensAt cs pos') := by
  -- Every mark and every member leave less of the text.
  induction hn : cs.length - l.progress.pos using Nat.strong_induction_on generalizing l before last with
  | h n ih =>
    subst hn
    rw [moreMembers_eq]
    refine (performs_eat ⟨by decide, by decide⟩).bind ?_
    rintro found l₁ hmoves (⟨rfl, hate⟩ | ⟨rfl, hskip, hnot⟩)
    · rw [if_pos rfl, hate.tokens, afterMember_bar hunion]
      have hentered₁ := hentered.moves hmoves
      have hdepth₁ := hmoves.restores.trans hdepth
      refine (hmembers around l₁ frames (before ++ [last]) hentered₁ hdepth₁ hframes).bind ?_
      rintro e l₂ hmoves₁ ⟨hlt, hresult⟩
      have hentered₂ := hentered₁.moves hmoves₁
      have hless : cs.length - l₂.progress.pos < cs.length - l.progress.pos := by
        have := hentered₂.within
        have := hate.lt
        omega
      rw [hresult]
      exact ih _ hless hentered₂ (hmoves₁.restores.trans hdepth₁) rfl
    · rw [if_neg Bool.false_ne_true, ← hskip.tokens]
      exact performs_pure ⟨afterMember_unionOf hunion hnot, hnot⟩

/-- A union. -/
theorem performs_union (hmembers : ReadsMembers limit cs depth) (hentered : Entered limit cs around l)
    (hdepth : l.progress.depth = depth) (hframes : frames.length = depth) (hunion : frames.head? ≠ some .nullable) :
    Performs limit cs l (union limit cs around) (result limit ⟨frames, [], .start⟩ (tokensAt cs l.progress.pos))
      fun e pos' => l.progress.pos < pos' ∧ result limit ⟨frames, [], .start⟩ (tokensAt cs l.progress.pos) =
        afterMember limit frames [] e (tokensAt cs pos') ∧ NotNext '|' (tokensAt cs pos') := by
  rw [union_eq]
  refine Performs.noted ?_ hentered ⟨nofun, nofun⟩ fun e pos' h => h.1
  have hinside := hentered.inside .union nofun
  refine (hmembers _ l frames [] hinside hdepth hframes).bind ?_
  rintro first l₁ hmoves ⟨hlt, hresult⟩
  rw [hresult]
  refine (performs_moreMembers hmembers (hinside.moves hmoves) (hmoves.restores.trans hdepth) hframes hunion).mono ?_
  intro e pos' hle h
  exact ⟨Nat.lt_of_lt_of_le hlt hle, h⟩

variable {base : String} {bracket : Bracket} {done outer : List TypeExpr}

theorem isMark_close : IsMark bracket.close := by
  cases bracket with
  | angle => exact ⟨by decide, by decide⟩
  | brace => exact ⟨by decide, by decide⟩

/-- Entries up to the mark that closes their bracket. -/
theorem performs_moreEntries (hmembers : ReadsMembers limit cs depth) (hentered : Entered limit cs around l)
    (hdepth : l.progress.depth = depth) (hframes : frames.length + 1 = depth) :
    Performs limit cs l (moreEntries limit cs around bracket done)
      (result limit ⟨.entries base bracket done outer :: frames, [], .start⟩ (tokensAt cs l.progress.pos))
        fun es pos' => l.progress.pos < pos' ∧ es ≠ [] ∧
          result limit ⟨.entries base bracket done outer :: frames, [], .start⟩ (tokensAt cs l.progress.pos) =
            closeEntries base bracket es >>= fun e => result limit ⟨frames, outer, .suffixed e 0⟩ (tokensAt cs pos') := by
  -- Every entry leaves less of the text.
  induction hn : cs.length - l.progress.pos using Nat.strong_induction_on generalizing l done with
  | h n ih =>
    subst hn
    rw [moreEntries_eq]
    have hinside : (Frame.entries base bracket done outer :: frames).length = depth := hframes
    refine (performs_union hmembers hentered hdepth hinside nofun).bind ?_
    rintro e l₁ hmoves ⟨hlt, hresult, hbar⟩
    rw [hresult]
    have hentered₁ := hentered.moves hmoves
    refine (performs_eat ⟨by decide, by decide⟩).bind ?_
    rintro found l₂ hmoves₁ (⟨rfl, hate⟩ | ⟨rfl, hskip, hcomma⟩)
    · rw [if_pos rfl, hate.tokens, afterMember_comma]
      have hentered₂ := hentered₁.moves hmoves₁
      have hless : cs.length - l₂.progress.pos < cs.length - l.progress.pos := by
        have := hentered₂.within
        have := hate.lt
        omega
      refine (ih _ hless hentered₂ (hmoves₁.restores.trans (hmoves.restores.trans hdepth)) rfl).mono ?_
      rintro es pos' - ⟨hlt', hes⟩
      exact ⟨(hlt.trans hate.lt).trans hlt', hes⟩
    · rw [if_neg Bool.false_ne_true, ← hskip.tokens]
      rw [← hskip.tokens] at hbar
      refine (performs_expect isMark_close fun hclose => afterMember_refused hbar hcomma hclose).bind ?_
      rintro ⟨⟩ l₃ - hate
      refine performs_pure ⟨(Nat.lt_of_lt_of_le hlt hmoves₁.forward).trans hate.lt, by simp, ?_⟩
      rw [hate.tokens, afterMember_close]

/-- Entries after the mark that opens their bracket. -/
theorem performs_list (hmembers : ReadsMembers limit cs depth) (hentered : Entered limit cs around l)
    (hdepth : l.progress.depth = depth) (hframes : frames.length + 1 = depth) :
    Performs limit cs l (list limit cs around bracket)
      (result limit ⟨frames, members, .opened base bracket⟩ (tokensAt cs l.progress.pos)) fun es pos' =>
        l.progress.pos < pos' ∧ (es = [] ∧ Ate cs bracket.close l.progress.pos pos' ∨
          es ≠ [] ∧ result limit ⟨frames, members, .opened base bracket⟩ (tokensAt cs l.progress.pos) =
            closeEntries base bracket es >>= fun e =>
              result limit ⟨frames, members, .suffixed e 0⟩ (tokensAt cs pos')) := by
  rw [list_eq]
  refine Performs.noted ?_ hentered ⟨nofun, nofun⟩ fun e pos' h => h.1
  have hinside := hentered.inside .list nofun
  refine (performs_eat isMark_close).bind ?_
  rintro found l₁ hmoves (⟨rfl, hate⟩ | ⟨rfl, hskip, hclose⟩)
  · rw [if_pos rfl]
    exact performs_pure ⟨hate.lt, Or.inl ⟨rfl, hate⟩⟩
  · rw [if_neg Bool.false_ne_true, ← hskip.tokens, result_opened hclose]
    refine (performs_moreEntries hmembers (hinside.moves hmoves) (hmoves.restores.trans hdepth) hframes).mono ?_
    rintro es pos' - ⟨hlt, hne, hresult⟩
    exact ⟨Nat.lt_of_le_of_lt hmoves.forward hlt, Or.inr ⟨hne, hresult⟩⟩

/-- Suffixes after an expression. -/
theorem performs_suffixes {wraps : Nat} (hwithin : l.progress.pos ≤ cs.length) (hdepth : l.progress.depth = frames.length + 1) :
    Performs limit cs l (suffixes limit cs wraps e)
      (result limit ⟨frames, members, .suffixed e wraps⟩ (tokensAt cs l.progress.pos)) fun e' pos' =>
        result limit ⟨frames, members, .suffixed e wraps⟩ (tokensAt cs l.progress.pos) =
          afterMember limit frames members e' (tokensAt cs pos') := by
  -- Every suffix leaves less of the text.
  induction hn : cs.length - l.progress.pos using Nat.strong_induction_on generalizing l wraps e with
  | h n ih =>
    subst hn
    rw [suffixes_eq]
    refine (performs_eat ⟨by decide, by decide⟩).bind ?_
    rintro found l₁ hmoves (⟨rfl, hate⟩ | ⟨rfl, hskip, hnot⟩)
    · rw [if_pos rfl, hate.tokens, result_openSquare]
      refine (performs_expect ⟨by decide, by decide⟩ result_square_refused).bind ?_
      rintro ⟨⟩ l₂ hmoves₁ hate₁
      have hdepth₂ := (hmoves₁.restores.trans hmoves.restores).trans hdepth
      have hwithin₂ := hmoves₁.within (hmoves.within hwithin)
      rw [hate₁.tokens, result_closeSquare]
      refine performs_progress ?_
      by_cases hlimit : limit ≤ frames.length + wraps + 1
      · rw [if_pos hlimit, if_pos (by omega)]
        exact performs_throw rfl
      · rw [if_neg hlimit, if_neg (by omega)]
        have hless : cs.length - l₂.progress.pos < cs.length - l.progress.pos := by
          have := hate.lt
          have := hate₁.lt
          omega
        exact ih _ hless hwithin₂ hdepth₂ rfl
    · rw [if_neg Bool.false_ne_true, ← hskip.tokens]
      exact performs_pure (result_suffixed hnot)

/-- The generic of a name and the arguments that have been read. -/
theorem performs_genericOf {name : String} {args : List TypeExpr} {pos : Nat}
    (hargs : args = [] ∧ Ate cs Bracket.angle.close pos l.progress.pos ∨
      args ≠ [] ∧ result limit ⟨frames, members, .opened name .angle⟩ (tokensAt cs pos) =
        closeEntries name .angle args >>= fun e =>
          result limit ⟨frames, members, .suffixed e 0⟩ (tokensAt cs l.progress.pos)) :
    Performs limit cs l (genericOf cs name args)
      (result limit ⟨frames, members, .opened name .angle⟩ (tokensAt cs pos)) fun e pos' =>
        pos' = l.progress.pos ∧ result limit ⟨frames, members, .opened name .angle⟩ (tokensAt cs pos) =
          result limit ⟨frames, members, .suffixed e 0⟩ (tokensAt cs l.progress.pos) := by
  match args, hargs with
  | [], Or.inl ⟨_, hate⟩ =>
    rw [hate.tokens, result_opened_close_angle]
    exact performs_progress (performs_unexpectedAt hate.char rfl)
  | [arg], Or.inr ⟨_, hresult⟩ => exact performs_pure ⟨rfl, hresult⟩
  | arg :: other :: more, Or.inr ⟨_, hresult⟩ => exact performs_throw hresult

/-- A tuple, whose elements stand in braces after `array`. -/
theorem performs_tuple {name : String} (hmembers : ReadsMembers limit cs depth) (hentered : Entered limit cs around l)
    (hdepth : l.progress.depth = depth) (hframes : frames.length + 1 = depth) (harray : TypeExpr.isArrayName name = true)
    (hbrace : ¬NotNext '{' (tokensAt cs l.progress.pos)) :
    Performs limit cs l (eat cs '{' >>= fun _ => list limit cs around .brace >>= fun es => pure (.tuple es))
      (result limit ⟨frames, members, .named name⟩ (tokensAt cs l.progress.pos)) fun e pos' =>
        result limit ⟨frames, members, .named name⟩ (tokensAt cs l.progress.pos) =
          result limit ⟨frames, members, .suffixed e 0⟩ (tokensAt cs pos') := by
  refine (performs_eat ⟨by decide, by decide⟩).bind ?_
  rintro _ l₁ hmoves (⟨-, hate⟩ | ⟨-, hskip, hnot⟩)
  · rw [hate.tokens, result_named_brace, if_pos harray]
    refine (performs_list hmembers (hentered.moves hmoves) (hmoves.restores.trans hdepth) hframes).bind ?_
    rintro es l₂ - ⟨-, hentries⟩
    refine performs_pure ?_
    rcases hentries with ⟨rfl, hate₁⟩ | ⟨-, hresult⟩
    · rw [hate₁.tokens, result_opened_close_brace]
    · exact hresult
  · rw [hskip.tokens] at hnot
    exact absurd hnot hbrace

/-- What follows a name. -/
theorem performs_afterName {name : String} (hmembers : ReadsMembers limit cs depth) (hentered : Entered limit cs around l)
    (hdepth : l.progress.depth = depth) (hframes : frames.length + 1 = depth) :
    Performs limit cs l (afterName cs (list limit cs around) name)
      (result limit ⟨frames, members, .named name⟩ (tokensAt cs l.progress.pos)) fun e pos' =>
        result limit ⟨frames, members, .named name⟩ (tokensAt cs l.progress.pos) =
          result limit ⟨frames, members, .suffixed e 0⟩ (tokensAt cs pos') := by
  refine (performs_eat ⟨by decide, by decide⟩).bind ?_
  rintro angle l₁ hmoves (⟨rfl, hate⟩ | ⟨rfl, hskip, hangle⟩)
  · rw [if_pos rfl, hate.tokens, result_named_angle]
    refine (performs_list hmembers (hentered.moves hmoves) (hmoves.restores.trans hdepth) hframes).bind ?_
    rintro args l₂ - ⟨-, hargs⟩
    refine (performs_genericOf hargs).mono ?_
    rintro e pos' - ⟨rfl, hresult⟩
    exact hresult
  · rw [if_neg Bool.false_ne_true, ← hskip.tokens]
    refine performs_peekIs.bind ?_
    rintro brace l₂ hmoves₁ ⟨hskip₁, rfl⟩
    have hnext := notNext_iff hskip₁ (c := '{') ⟨by decide, by decide⟩
    rw [← hskip₁.tokens] at hangle ⊢
    by_cases hbrace : cs[l₂.progress.pos]? = some '{'
    · rw [decide_eq_true hbrace, if_pos rfl]
      by_cases harray : TypeExpr.isArrayName name = true
      · rw [if_pos harray]
        exact performs_tuple hmembers ((hentered.moves hmoves).moves hmoves₁)
          (hmoves₁.restores.trans (hmoves.restores.trans hdepth)) hframes harray fun hnot => hnext.1 hnot hbrace
      · rw [if_neg harray, tokensAt_mark hbrace (by decide) (by decide), result_named_brace, if_neg harray]
        exact performs_throw rfl
    · rw [decide_eq_false hbrace, if_neg Bool.false_ne_true]
      exact performs_pure (result_named hangle (hnext.2 hbrace))

/-- A name and the entries in its brackets. -/
theorem performs_primary (hmembers : ReadsMembers limit cs depth) (hentered : Entered limit cs around l)
    (hdepth : l.progress.depth = depth) (hframes : frames.length + 1 = depth)
    (hnullable : NotNext '?' (tokensAt cs l.progress.pos)) :
    Performs limit cs l (primary limit cs around) (result limit ⟨frames, members, .start⟩ (tokensAt cs l.progress.pos))
      fun e pos' => l.progress.pos < pos' ∧ result limit ⟨frames, members, .start⟩ (tokensAt cs l.progress.pos) =
        result limit ⟨frames, members, .suffixed e 0⟩ (tokensAt cs pos') := by
  have hlimit : frames.length < limit := by
    have := hentered.bounded
    omega
  rw [primary_eq]
  refine Performs.noted ?_ hentered ⟨nofun, nofun⟩ fun e pos' h => h.1
  refine (performs_ident (result_start_refused hlimit hnullable) ?_).bind ?_
  · intro t ht c w hword hlast
    obtain ⟨ts, hts⟩ := List.head?_eq_some_iff.1 ht
    rw [hts, result_start_dash hlimit hword hlast]
  · rintro name l₁ hmoves ⟨hlt, t, c, w, htokens, hword, hlast, rfl⟩
    rw [htokens, result_start_word hlimit hword hlast]
    have hinside := (hentered.inside .primary nofun).moves hmoves
    refine (performs_afterName hmembers hinside (hmoves.restores.trans hdepth) hframes).mono ?_
    intro e pos' hle h
    exact ⟨Nat.lt_of_lt_of_le hlt hle, h⟩

/-- What a member is made of. -/
theorem performs_memberInner (hmembers : ReadsMembers limit cs depth) (hentered : Entered limit cs around l)
    (hdepth : l.progress.depth = depth) (hframes : frames.length + 1 = depth) :
    Performs limit cs l (memberInner limit cs around)
      (result limit ⟨frames, members, .start⟩ (tokensAt cs l.progress.pos)) fun e pos' =>
        l.progress.pos < pos' ∧ result limit ⟨frames, members, .start⟩ (tokensAt cs l.progress.pos) =
          afterMember limit frames members e (tokensAt cs pos') := by
  have hlimit : frames.length < limit := by
    have := hentered.bounded
    omega
  rw [memberInner_eq]
  refine Performs.noted ?_ hentered ⟨nofun, fun _ => by omega⟩ fun e pos' h => h.1
  have hinside := hentered.inside .memberInner nofun
  refine (performs_eat ⟨by decide, by decide⟩).bind ?_
  rintro found l₁ hmoves (⟨rfl, hate⟩ | ⟨rfl, hskip, hnullable⟩)
  · rw [if_pos rfl, hate.tokens, result_start_nullable hlimit]
    have hdepth₁ := hmoves.restores.trans hdepth
    refine (hmembers _ l₁ (.nullable :: frames) members (hinside.moves hmoves) hdepth₁ hframes).bind ?_
    rintro e l₂ - ⟨hlt, hresult⟩
    refine performs_pure ⟨hate.lt.trans hlt, ?_⟩
    rw [hresult, afterMember_nullable]
  · rw [if_neg Bool.false_ne_true, ← hskip.tokens]
    have hdepth₁ := hmoves.restores.trans hdepth
    refine (performs_primary hmembers (hinside.moves hmoves) hdepth₁ hframes hnullable).bind ?_
    rintro e l₂ hmoves₁ ⟨hlt, hresult⟩
    have hwithin := ((hinside.moves hmoves).moves hmoves₁).within
    rw [hresult]
    refine (performs_suffixes hwithin ((hmoves₁.restores.trans hdepth₁).trans hframes.symm)).mono ?_
    intro e pos' hle h
    exact ⟨Nat.lt_of_lt_of_le (Nat.lt_of_le_of_lt hmoves.forward hlt) hle, h⟩

/-- If members are read inside a member, it is read. -/
theorem ReadsMembers.outside (h : ReadsMembers limit cs (depth + 1)) (hlimit : depth < limit) : ReadsMembers limit cs depth := by
  intro around l frames members hentered hdepth hframes
  subst hdepth
  rw [member_eq]
  refine Performs.noted (performs_raised hlimit ?_) hentered ⟨fun _ => hlimit, nofun⟩ fun e pos' h => h.1
  refine performs_memberInner h ⟨hentered.within, ?_, hlimit⟩ rfl (congrArg (· + 1) hframes)
  rw [List.count_cons_self, hentered.counts]

/-- At every depth up to the limit, members are read as the machine reads them. -/
theorem readsMembers (h : depth ≤ limit) : ReadsMembers limit cs depth := by
  -- From the limit, where every member is refused, outwards.
  induction h using Nat.decreasingInduction with
  | self =>
    intro around l frames members hentered hdepth hframes
    rw [member_eq, result_start_deep (Nat.le_of_eq hframes.symm)]
    exact performs_refused hentered (Nat.le_of_eq hdepth.symm) rfl
  | of_succ depth hlt ih => exact ih.outside hlt

end Rules

/-! ## Whole annotations -/

/-- After the union, the text has to end. -/
theorem performs_end {cs : List Char} {l : Ledger} (hbar : NotNext '|' (tokensAt cs l.progress.pos)) :
    Performs limit cs l
      (skipBlanks cs >>= fun _ => peek cs >>= fun next => if next.isNone then pure e else unexpected cs)
      (afterMember limit [] [] e (tokensAt cs l.progress.pos)) fun e' _ =>
        afterMember limit [] [] e (tokensAt cs l.progress.pos) = .ok e' := by
  refine performs_skipBlanks.bind ?_
  rintro ⟨⟩ l₁ - hskip
  refine performs_peek ?_
  rw [← hskip.tokens] at hbar ⊢
  cases hnext : cs[l₁.progress.pos]? with
  | none =>
    rw [Option.isNone_none, if_pos rfl, tokensAt_of_none hnext]
    exact performs_pure rfl
  | some c =>
    rw [Option.isNone_some, if_neg Bool.false_ne_true]
    obtain ⟨t, ts, htokens, rfl⟩ := exists_tokensAt hnext (hskip.not_blank c hnext)
    rw [htokens] at hbar ⊢
    exact performs_progress (performs_unexpectedAt hnext (afterMember_outside hbar))

/-- A whole annotation is read as the machine reads it. -/
theorem performs_whole (limit : Nat) (cs : List Char) :
    Performs limit cs .start (whole limit cs) (TypeExpr.ofTokens limit (Token.scan 0 cs)) fun e _ =>
      TypeExpr.ofTokens limit (Token.scan 0 cs) = .ok e := by
  have hall : Token.scan 0 cs = tokensAt cs 0 := by rw [tokensAt, List.take_zero, List.drop_zero, utf8Length]
  have hentered : Entered limit cs [] .start := ⟨Nat.zero_le _, rfl, Nat.zero_le _⟩
  rw [hall]
  refine performs_skipBlanks.bind ?_
  rintro ⟨⟩ l₁ hmoves hskip
  have hskip : Skipped cs 0 l₁.progress.pos := hskip
  refine performs_peek ?_
  rw [← hskip.tokens]
  cases hnext : cs[l₁.progress.pos]? with
  | none =>
    rw [Option.isNone_none, if_pos rfl, tokensAt_of_none hnext]
    exact performs_throw rfl
  | some c =>
    rw [Option.isNone_some, if_neg Bool.false_ne_true]
    obtain ⟨t, ts, htokens, -⟩ := exists_tokensAt hnext (hskip.not_blank c hnext)
    have hresult : TypeExpr.ofTokens limit (tokensAt cs l₁.progress.pos) =
        result limit ⟨[], [], .start⟩ (tokensAt cs l₁.progress.pos) := by
      rw [htokens]
      rfl
    rw [hresult]
    have hmembers : ReadsMembers limit cs 0 := readsMembers (Nat.zero_le limit)
    have houtside : ([] : List Frame).head? ≠ some .nullable := by simp
    refine (performs_union hmembers (hentered.moves hmoves) hmoves.restores rfl houtside).bind ?_
    rintro e l₂ - ⟨-, hunion, hbar⟩
    rw [hunion]
    exact performs_end hbar

end Descent

/-- The descent reads every annotation as it is read token by token, and keeps its frames in order. It ends on every text, with
the same expression or the same fault. The cursor of a call that has returned has not gone back and is within the text, and it has
gone on if the call succeeded. Its counter is what it was, whether the call succeeded or not; it is the number of the members
around the call and at most the limit, so that no call has more members around it; a member that finds it at the limit is refused
at once; and when a member lowers it, it is at least one. Only characters of the text are named as unexpected. -/
theorem Descent.whole_disciplined (text : String) :
    ∃ out l, runFrom (whole maxNesting text.toList) .start = some (out, l) ∧
      out.mapError (⟨text, ·⟩) = TypeExpr.parse text ∧ (∀ call ∈ l.calls, Disciplined maxNesting text.toList call) ∧
      ∀ i ∈ l.asked, i < text.toList.length := by
  obtain ⟨out, l, hrun, hmoves, hout⟩ := performs_whole maxNesting text.toList
  obtain ⟨calls, hcalls, hdisciplined⟩ := hmoves.calls
  obtain ⟨asked, hasked, hbound⟩ := hmoves.asked
  have hparse : out = TypeExpr.ofTokens maxNesting (Token.scan 0 text.toList) := by
    cases out with
    | ok e => exact hout.symm
    | error fault => exact hout.symm
  refine ⟨out, l, hrun, ?_, ?_, ?_⟩
  · rw [hparse, TypeExpr.parse]
  · rw [hcalls]
    exact hdisciplined
  · rw [hasked]
    exact hbound

/-- The text `m<?a,]>` is refused for the bracket after the comma. The counter is lowered on the way out of every call. -/
theorem Descent.whole_disciplined_brokenEntry :
    ∃ out l, runFrom (whole maxNesting "m<?a,]>".toList) .start = some (out, l) ∧
      l.calls.map (fun call => (call.rule, call.start.depth, call.succeeded)) =
        [(.primary, 3, true), (.memberInner, 3, true), (.member, 2, true), (.memberInner, 2, true), (.member, 1, true),
          (.union, 1, true), (.primary, 2, false), (.memberInner, 2, false), (.member, 1, false), (.union, 1, false),
          (.list, 1, false), (.primary, 1, false), (.memberInner, 1, false), (.member, 0, false), (.union, 0, false)] ∧
      (∀ call ∈ l.calls, call.stop.depth = call.start.depth) ∧ l.asked = [5] ∧ 5 < "m<?a,]>".toList.length := by
  obtain ⟨out, l, hrun, -, hcalls, hasked⟩ := whole_disciplined "m<?a,]>"
  have hnoted : (runFrom (whole maxNesting "m<?a,]>".toList) .start).map
        (fun run => (run.2.calls.map fun call => (call.rule, call.start.depth, call.succeeded), run.2.asked)) =
      some ([(.primary, 3, true), (.memberInner, 3, true), (.member, 2, true), (.memberInner, 2, true), (.member, 1, true),
        (.union, 1, true), (.primary, 2, false), (.memberInner, 2, false), (.member, 1, false), (.union, 1, false),
        (.list, 1, false), (.primary, 1, false), (.memberInner, 1, false), (.member, 0, false), (.union, 0, false)], [5]) := by
    have hunion : union maxNesting "m<?a,]>".toList [] = (((Procedures.outermost maxNesting "m<?a,]>".toList)^[16])
        (procedures maxNesting "m<?a,]>".toList)).union [] := by
      rw [Function.iterate_fixed outermost_procedures]
      rfl
    unfold whole
    rw [hunion]
    decide +kernel
  rw [hrun, Option.map_some, Option.some_inj, Prod.mk.injEq] at hnoted
  obtain ⟨hrules, hindex⟩ := hnoted
  have hmem : 5 ∈ l.asked := hindex ▸ List.mem_singleton_self 5
  exact ⟨out, l, hrun, hrules, fun call hcall => (hcalls call hcall).restores, hindex, hasked 5 hmem⟩

end ClassSchema
