import ClassSchema.Proofs.TaggedType
import Mathlib.Data.List.TakeWhile
import Mathlib.Data.Nat.Init

/-!
# Where a tagged type ends

The scanner of a type in a doc comment cuts what is left of every body (`Trimmed`) in two, whether or not a type stands there:
the first part is kept but for its blanks outside the brackets, and the second is left. The cut is described by the text alone
(`TypeEnd`): a run of blanks outside the brackets goes on with the type if it touches a `|` or follows a `?`, and the first one
that does not ends it. Brackets may be closed that have not been opened; then the number of open ones is negative, and the text
is outside all of them.

The scanner finds such a cut from every place it comes to (`exists_cut`), and there is no other (`TypeEnd.unique`), since two cuts
that keep the same text can only differ by blanks at the end of the first part.
-/

namespace ClassSchema

namespace DocComment

variable {c : Char} {cs done before run after rest r a b : List Char} {depth : Int}

/-! ## What is kept and what is left -/

/-- A text without its blanks at places where no bracket is open, given the text before it. -/
def dropOuterBlanks (before : List Char) : List Char → List Char
  | [] => []
  | c :: cs =>
    if isBlank c ∧ bracketDepth before ≤ 0 then dropOuterBlanks (before ++ [c]) cs else c :: dropOuterBlanks (before ++ [c]) cs

/-- Blanks outside the brackets, up to the next character that is none. -/
structure OuterRun (before run after : List Char) : Prop where
  ne_nil : run ≠ []
  blanks : ∀ c ∈ run, isBlank c = true
  head : ∀ c ∈ after.head?, isBlank c = false
  depth : bracketDepth before ≤ 0

/-- What stands between two parts of a text follows a `|` or a `?`, or a `|` follows it. -/
def Touches (before after : List Char) : Prop :=
  before.getLast? = some '|' ∨ before.getLast? = some '?' ∨ after.head? = some '|'

/-- Every maximal run of blanks outside the brackets of a text touches a `|` or follows a `?`. -/
def Continues (a : List Char) : Prop :=
  ∀ before run after, a = before ++ run ++ after → (∀ c ∈ before.getLast?, isBlank c = false) → OuterRun before run after →
    Touches before after

/-- The second part of a text is empty, or begins with a run of blanks outside the brackets that touches no `|` and follows no
`?`. -/
def Ends (a b : List Char) : Prop := b = [] ∨ ∃ run after, b = run ++ after ∧ OuterRun a run after ∧ ¬Touches a after

/-- The body of a tag is cut into what belongs to the type and what is left. -/
structure TypeEnd (rest a b : List Char) : Prop where
  text : Trimmed rest (a ++ b)
  found : leadingType rest = dropOuterBlanks [] a
  continues : Continues a
  ends : Ends a b

/-! ## Blanks that are left out -/

/-- A character opens or closes a bracket, or leaves them as they are. -/
theorem bracketDepth_concat (cs : List Char) (c : Char) : bracketDepth (cs ++ [c]) = bracketDepth cs + bracketStep c := by
  rw [bracketDepth_append, bracketDepth_cons]
  exact congrArg _ (Int.add_zero _)

/-- Blanks outside the brackets are left out. -/
theorem dropOuterBlanks_append (hrun : ∀ c ∈ run, isBlank c = true) (hdepth : bracketDepth before ≤ 0) (cs : List Char) :
    dropOuterBlanks before (run ++ cs) = dropOuterBlanks (before ++ run) cs := by
  induction run generalizing before with
  | nil => rw [List.nil_append, List.append_nil]
  | cons b run ih =>
    rw [List.forall_mem_cons] at hrun
    have hnext : bracketDepth (before ++ [b]) ≤ 0 := by
      rwa [bracketDepth_concat, bracketStep_of_isBlank hrun.1, Int.add_zero]
    rw [List.cons_append, dropOuterBlanks, if_pos ⟨hrun.1, hdepth⟩, ih hrun.2 hnext, ← List.append_cons]

/-- Nothing but blanks is left out. -/
theorem filter_dropOuterBlanks (before cs : List Char) :
    (dropOuterBlanks before cs).filter (!isBlank ·) = cs.filter (!isBlank ·) := by
  induction cs generalizing before with
  | nil => rfl
  | cons c cs ih =>
    rw [dropOuterBlanks]
    split
    · rename_i hc
      rw [ih, List.filter_cons_of_neg (by simp [hc.1])]
    · rw [List.filter_cons, List.filter_cons, ih]

/-! ## Runs of blanks -/

/-- A run of blanks and what follows it are told apart by the first character that is no blank. -/
theorem blanks_append_inj {run' after' : List Char} (hrun : ∀ c ∈ run, isBlank c = true) (hrun' : ∀ c ∈ run', isBlank c = true)
    (hafter : ∀ c ∈ after.head?, isBlank c = false) (hafter' : ∀ c ∈ after'.head?, isBlank c = false)
    (h : run ++ after = run' ++ after') : run = run' ∧ after = after' := by
  have hdrop := congrArg (List.dropWhile isBlank) h
  rw [List.dropWhile_append_of_pos hrun, List.dropWhile_append_of_pos hrun', dropWhile_isBlank_eq_self hafter,
    dropWhile_isBlank_eq_self hafter'] at hdrop
  subst hdrop
  exact ⟨List.append_cancel_right h, rfl⟩

/-- A text begins with a run of blanks, which may be empty, and goes on with a character that is none. -/
theorem exists_blanks_append (cs : List Char) :
    ∃ run after, cs = run ++ after ∧ (∀ c ∈ run, isBlank c = true) ∧ ∀ c ∈ after.head?, isBlank c = false := by
  exact ⟨cs.takeWhile isBlank, cs.dropWhile isBlank, List.takeWhile_append_dropWhile.symm,
    fun c hc => List.mem_takeWhile_imp hc, fun c hc => eq_false_of_mem_head?_dropWhile hc⟩

/-- At the end of a text that does not end in a blank there are no blanks. -/
theorem eq_nil_of_blanks (hblanks : ∀ c ∈ before, isBlank c = true)
    (hlast : ∀ c ∈ (done ++ before).getLast?, isBlank c = false) : before = [] := by
  rcases before.eq_nil_or_concat with rfl | ⟨init, c, rfl⟩
  · rfl
  · have hc : isBlank c = true := hblanks c (by simp)
    have := hlast c (by simp)
    rw [hc] at this
    nomatch this

/-! ## Texts that go on with the type -/

/-- Behind a text that the scanner has gone through, every maximal run of blanks outside the brackets touches a `|` or follows a
`?`. -/
def ContinuesAfter (done a : List Char) : Prop :=
  ∀ before run after, a = before ++ run ++ after → (∀ c ∈ (done ++ before).getLast?, isBlank c = false) →
    OuterRun (done ++ before) run after → Touches (done ++ before) after

theorem continuesAfter_nil (done : List Char) : ContinuesAfter done [] := by
  intro before run after heq _ hrun
  simp only [List.nil_eq, List.append_eq_nil_iff] at heq
  exact absurd heq.1.2 hrun.ne_nil

/-- A character that is kept may be put before a text that goes on. -/
theorem ContinuesAfter.cons (hc : ¬(isBlank c = true ∧ bracketDepth done ≤ 0)) (h : ContinuesAfter (done ++ [c]) a) :
    ContinuesAfter done (c :: a) := by
  intro before run after heq hlast hrun
  cases before with
  | nil =>
    -- The run would begin with the character.
    obtain ⟨d, run', rfl⟩ := List.exists_cons_of_ne_nil hrun.ne_nil
    obtain ⟨rfl, -⟩ := List.cons.inj heq
    have hdepth := hrun.depth
    rw [List.append_nil] at hdepth
    exact absurd ⟨hrun.blanks c List.mem_cons_self, hdepth⟩ hc
  | cons d before =>
    obtain ⟨rfl, rfl⟩ := List.cons.inj heq
    rw [List.append_cons] at hlast hrun ⊢
    exact h before run after rfl hlast hrun

/-- Blanks that touch a `|` or follow a `?` may be put before a text that goes on. -/
theorem ContinuesAfter.blanks_append {blanks : List Char} (hblanks : ∀ c ∈ blanks, isBlank c = true)
    (hhead : ∀ c ∈ a.head?, isBlank c = false) (htouches : blanks ≠ [] → Touches done a)
    (h : ContinuesAfter (done ++ blanks) a) : ContinuesAfter done (blanks ++ a) := by
  intro before run after heq hlast hrun
  rw [List.append_assoc] at heq
  rcases List.append_eq_append_iff.1 heq with ⟨inside, rfl, rfl⟩ | ⟨inside, rfl, hrest⟩
  · rw [← List.append_assoc] at hlast hrun ⊢
    exact h inside run after (List.append_assoc ..).symm hlast hrun
  · obtain rfl : before = [] := eq_nil_of_blanks (fun c hc => hblanks c (List.mem_append_left inside hc)) hlast
    obtain ⟨rfl, rfl⟩ := blanks_append_inj hrun.blanks hblanks hrun.head hhead hrest
    rw [List.append_nil]
    exact htouches hrun.ne_nil

/-! ## The cut -/

/-- A run of blanks that touches no `|` and follows no `?` ends the type. -/
theorem typeFrom_outerRun (hrun : OuterRun done run after) (hend : ¬Touches done after) :
    typeFrom (bracketDepth done) done.getLast? (run ++ after) = [] := by
  simp only [Touches, not_or] at hend
  obtain ⟨hbar, hquestion, hnext⟩ := hend
  obtain ⟨c, run', rfl⟩ := List.exists_cons_of_ne_nil hrun.ne_nil
  refine typeFrom_stops (Or.inr ⟨⟨c, rfl, hrun.blanks c List.mem_cons_self⟩, ?_⟩) hrun.depth hbar hquestion
  rwa [List.dropWhile_append_of_pos hrun.blanks, dropWhile_isBlank_eq_self hrun.head]

/-- A character that is kept. -/
theorem typeFrom_kept (hc : ¬(isBlank c = true ∧ depth ≤ 0)) (last : Option Char) (cs : List Char) :
    typeFrom depth last (c :: cs) = c :: typeFrom (depth + bracketStep c) (some c) cs := by
  rw [typeFrom, if_neg hc]

/-- Behind a text that the scanner has gone through, it cuts the rest in two. -/
structure Cut (done cs a b : List Char) : Prop where
  text : cs = a ++ b
  found : typeFrom (bracketDepth done) done.getLast? cs = dropOuterBlanks done a
  continues : ContinuesAfter done a
  ends : Ends (done ++ a) b
  last : ∀ c ∈ (done ++ a).getLast?, isBlank c = false

/-- A character that is kept belongs to the first part. -/
theorem Cut.cons (hc : ¬(isBlank c = true ∧ bracketDepth done ≤ 0)) (h : Cut (done ++ [c]) cs a b) :
    Cut done (c :: cs) (c :: a) b where
  text := by rw [h.text, List.cons_append]
  found := by
    have hfound := h.found
    rw [bracketDepth_concat, List.getLast?_concat] at hfound
    rw [typeFrom_kept hc, hfound, dropOuterBlanks, if_neg hc]
  continues := h.continues.cons hc
  ends := by
    rw [List.append_cons]
    exact h.ends
  last := by
    rw [List.append_cons]
    exact h.last

/-- Blanks that go on with the type belong to the first part, with the character after them. -/
theorem Cut.blanks_append {run : List Char} (hrun : OuterRun done run (c :: cs)) (htouches : Touches done (c :: cs))
    (h : Cut (done ++ run) (c :: cs) (c :: a) b) : Cut done (run ++ c :: cs) (run ++ c :: a) b where
  text := by rw [h.text, List.append_assoc]
  found := by
    have hblank : isBlank c = false := hrun.head c rfl
    have hkept : ¬(isBlank c = true ∧ bracketDepth done ≤ 0) := by simp [hblank]
    have hfound := h.found
    rw [bracketDepth_append, bracketDepth_blanks hrun.blanks, Int.add_zero, typeFrom_kept hkept] at hfound
    rw [typeFrom_joined hrun.blanks hrun.depth hrun.head htouches, dropOuterBlanks_append hrun.blanks hrun.depth, ← hfound,
      typeFrom_kept hkept]
  continues := h.continues.blanks_append hrun.blanks (hrun.head) fun _ => htouches
  ends := by
    rw [← List.append_assoc]
    exact h.ends
  last := by
    rw [← List.append_assoc]
    exact h.last

/-- Nothing is left where the text ends. -/
theorem cut_nil (hend : ∀ c ∈ done.getLast?, isBlank c = false) : Cut done [] [] [] where
  text := rfl
  found := rfl
  continues := continuesAfter_nil done
  ends := Or.inl rfl
  last := by rwa [List.append_nil]

/-- All is left from a run of blanks that ends the type. -/
theorem cut_outerRun (hdone : ∀ c ∈ done.getLast?, isBlank c = false) (hrun : OuterRun done run after)
    (hend : ¬Touches done after) : Cut done (run ++ after) [] (run ++ after) where
  text := rfl
  found := typeFrom_outerRun hrun hend
  continues := continuesAfter_nil done
  ends := by
    rw [List.append_nil]
    exact Or.inr ⟨run, after, rfl, hrun, hend⟩
  last := by rwa [List.append_nil]

/-- A character that is kept is no blank, unless brackets are open behind it. -/
theorem not_blank_of_kept (hc : ¬(isBlank c = true ∧ bracketDepth done ≤ 0)) (hdepth : bracketDepth (done ++ [c]) ≤ 0) :
    ∀ d ∈ (done ++ [c]).getLast?, isBlank d = false := by
  intro d hd
  rw [List.getLast?_concat] at hd
  cases hd
  rw [Bool.eq_false_iff]
  intro hblank
  rw [bracketDepth_concat, bracketStep_of_isBlank hblank, Int.add_zero] at hdepth
  exact hc ⟨hblank, hdepth⟩

/-- The scanner cuts every text in two. -/
theorem exists_cut (done cs : List Char) (hdone : bracketDepth done ≤ 0 → ∀ c ∈ done.getLast?, isBlank c = false)
    (hend : ∀ c ∈ (done ++ cs).getLast?, isBlank c = false) : ∃ a b, Cut done cs a b := by
  -- One turn goes through a character that is kept, with the blanks before it.
  induction hn : cs.length using Nat.strong_induction_on generalizing done cs with
  | h n ih =>
    have hkept (front : List Char) (c : Char) (tail : List Char) (hc : ¬(isBlank c = true ∧ bracketDepth front ≤ 0))
        (hend : ∀ d ∈ (front ++ c :: tail).getLast?, isBlank d = false) (hlt : tail.length < n) :
        ∃ a b, Cut front (c :: tail) (c :: a) b := by
      rw [List.append_cons] at hend
      obtain ⟨a, b, hcut⟩ := ih tail.length hlt (front ++ [c]) tail (not_blank_of_kept hc) hend rfl
      exact ⟨a, b, hcut.cons hc⟩
    by_cases houter : bracketDepth done ≤ 0
    · obtain ⟨run, after, rfl, hblanks, hhead⟩ := exists_blanks_append cs
      by_cases hne : run = []
      · subst hne
        cases after with
        | nil => exact ⟨[], [], cut_nil (hdone houter)⟩
        | cons c tail =>
          have hc : isBlank c = false := hhead c rfl
          obtain ⟨a, b, hcut⟩ := hkept done c tail (by simp [hc]) hend (by simp [← hn])
          exact ⟨c :: a, b, hcut⟩
      have hrun : OuterRun done run after := ⟨hne, hblanks, hhead, houter⟩
      by_cases htouches : Touches done after
      · cases after with
        | nil =>
          rw [List.append_nil] at hend
          exact absurd (eq_nil_of_blanks hblanks hend) hne
        | cons c tail =>
          have hc : isBlank c = false := hhead c rfl
          rw [← List.append_assoc] at hend
          obtain ⟨a, b, hcut⟩ := hkept (done ++ run) c tail (by simp [hc]) hend (by simp [← hn]; omega)
          exact ⟨run ++ c :: a, b, hcut.blanks_append hrun htouches⟩
      · exact ⟨[], run ++ after, cut_outerRun (hdone houter) hrun htouches⟩
    · cases cs with
      | nil => exact ⟨[], [], cut_nil (by rwa [List.append_nil] at hend)⟩
      | cons c tail =>
        obtain ⟨a, b, hcut⟩ := hkept done c tail (fun h => houter h.2) hend (by simp [← hn])
        exact ⟨c :: a, b, hcut⟩

/-! ## The only cut -/

/-- Two first parts that are kept alike, one the beginning of the other, differ by blanks. -/
theorem blanks_of_found {more : List Char} (h : dropOuterBlanks [] (a ++ more) = dropOuterBlanks [] a) :
    ∀ c ∈ more, isBlank c = true := by
  have hfilter := congrArg (List.filter (!isBlank ·)) h
  rw [filter_dropOuterBlanks, filter_dropOuterBlanks, List.filter_append, List.append_right_eq_self,
    List.filter_eq_nil_iff] at hfilter
  intro c hc
  simpa using hfilter c hc

/-- There is no cut but one whose first part does not end in a blank. -/
theorem TypeEnd.unique {a' b' : List Char} (h : TypeEnd rest a b) (hlast : ∀ c ∈ a.getLast?, isBlank c = false)
    (h' : TypeEnd rest a' b') : a' = a ∧ b' = b := by
  rcases List.append_eq_append_iff.1 (h'.text.unique h.text) with ⟨more, rfl, rfl⟩ | ⟨more, rfl, rfl⟩
  · -- The other cut is earlier, and what it leaves of the first part would be blanks at the end of it.
    have hmore : ∀ c ∈ more, isBlank c = true := blanks_of_found (h.found.symm.trans h'.found)
    obtain rfl : more = [] := eq_nil_of_blanks hmore hlast
    exact ⟨(List.append_nil _).symm, rfl⟩
  · -- The other cut is later, and the blanks between the two would go on with the type.
    have hmore : ∀ c ∈ more, isBlank c = true := blanks_of_found (h'.found.symm.trans h.found)
    by_cases hne : more = []
    · subst hne
      exact ⟨List.append_nil _, rfl⟩
    rcases h.ends with hnil | ⟨run, after, heq, hrun, hend⟩
    · exact absurd (List.append_eq_nil_iff.1 hnil).1 hne
    · have htouches : Touches a [] :=
        h'.continues a more [] (by rw [List.append_nil]) hlast ⟨hne, hmore, by simp, hrun.depth⟩
      rcases htouches with hbar | hquestion | hnone
      · exact absurd (Or.inl hbar) hend
      · exact absurd (Or.inr (Or.inl hquestion)) hend
      · nomatch hnone

/-! ## Brackets -/

/-- A character that opens or closes a bracket. -/
def isBracket (c : Char) : Bool := decide (c ∈ ['<', '{', '>', '}'])

/-- A text opens and closes no more brackets than it has. -/
theorem bracketDepth_le (cs : List Char) :
    -(cs.countP isBracket : Int) ≤ bracketDepth cs ∧ bracketDepth cs ≤ (cs.countP isBracket : Int) := by
  induction cs with
  | nil => decide
  | cons c cs ih =>
    have hstep : -1 ≤ bracketStep c ∧ bracketStep c ≤ 1 := by
      unfold bracketStep
      split
      · decide
      · split <;> decide
    rw [bracketDepth_cons]
    by_cases hc : isBracket c = true
    · rw [List.countP_cons_of_pos hc]
      omega
    · have hzero : bracketStep c = 0 := bracketStep_eq_zero fun hmem => hc (decide_eq_true hmem)
      rw [List.countP_cons_of_neg hc, hzero]
      omega

/-- One text is left of the body of a tag when it is trimmed, and it is cut in two in exactly one way: the first part is the type
that is found, but for its blanks outside the brackets, every run of which touches a `|` or follows a `?`, and the second is empty
or begins with a run that does not. So no character of the first part is lost but these blanks, and none is added or moved. With
fewer than 2³¹ brackets their depth is a number of 32 bits everywhere. -/
theorem existsUnique_typeEnd (rest : List Char) (hbrackets : rest.countP isBracket < 2147483648) :
    ∃ r, Trimmed rest r ∧ (∀ r', Trimmed rest r' → r' = r) ∧
      (∀ before, before <+: r → -2147483648 ≤ bracketDepth before ∧ bracketDepth before < 2147483648) ∧
      ∃ a b, r = a ++ b ∧ TypeEnd rest a b ∧ (∀ a' b', TypeEnd rest a' b' → a' = a ∧ b' = b) ∧
        (leadingType rest).filter (!isBlank ·) = a.filter (!isBlank ·) := by
  have htrimmed : Trimmed rest (trimBody rest) := trimmed_iff.2 rfl
  obtain ⟨a, b, hcut⟩ := exists_cut [] (trimBody rest) (by simp) htrimmed.last
  have hend : TypeEnd rest a b := ⟨hcut.text ▸ htrimmed, hcut.found, hcut.continues, hcut.ends⟩
  refine ⟨trimBody rest, htrimmed, fun r' h' => h'.unique htrimmed, ?_, a, b, hcut.text, hend, ?_, ?_⟩
  · intro before hbefore
    have hle := bracketDepth_le before
    have hcount : before.countP isBracket ≤ rest.countP isBracket := (hbefore.sublist.trans htrimmed.sublist).countP_le
    omega
  · exact fun a' b' h' => hend.unique hcut.last h'
  · rw [hend.found, filter_dropOuterBlanks]

theorem existsUnique_typeEnd_touchingCloser :
    " Point> | array<<int, float>> | Row*/*/ ".toList.countP isBracket < 2147483648 ∧
      Trimmed " Point> | array<<int, float>> | Row*/*/ ".toList "Point> | array<<int, float>> | Row".toList ∧
      TypeEnd " Point> | array<<int, float>> | Row*/*/ ".toList "Point> | array<<int, float>> | Row".toList [] ∧
      leadingType " Point> | array<<int, float>> | Row*/*/ ".toList = "Point>|array<<int, float>>|Row".toList := by
  have hbrackets : " Point> | array<<int, float>> | Row*/*/ ".toList.countP isBracket < 2147483648 := by decide
  have htrimmed : Trimmed " Point> | array<<int, float>> | Row*/*/ ".toList "Point> | array<<int, float>> | Row".toList := by
    refine ⟨" Point> | array<<int, float>> | Row*/*/".toList, " Point> | array<<int, float>> | Row".toList,
      ⟨⟨[' '], ?_, ?_⟩, ?_⟩, ⟨⟨2, ?_⟩, ?_⟩, ⟨⟨[' '], [], ?_, ?_, ?_⟩, ?_, ?_⟩⟩ <;> decide
  have hfound : leadingType " Point> | array<<int, float>> | Row*/*/ ".toList = "Point>|array<<int, float>>|Row".toList := by
    decide +kernel
  obtain ⟨r, -, hunique, -, a, b, hab, hend, -, hkept⟩ := existsUnique_typeEnd _ hbrackets
  obtain rfl := hunique _ htrimmed
  -- The first part keeps all characters that are no blanks, so the second has only blanks, and the text does not end in one.
  have hall : "Point> | array<<int, float>> | Row".toList.filter (!isBlank ·) = a.filter (!isBlank ·) := by
    rw [← hkept, hfound]
    decide
  rw [hab, List.filter_append, List.append_right_eq_self, List.filter_eq_nil_iff] at hall
  have hb : b = [] := by
    have hlast : ∀ c ∈ (a ++ b).getLast?, isBlank c = false := hab ▸ htrimmed.last
    exact eq_nil_of_blanks (fun c hc => by simpa using hall c hc) hlast
  rw [hb, List.append_nil] at hab
  rw [hb, ← hab] at hend
  exact ⟨hbrackets, htrimmed, hend, hfound⟩

end DocComment

end ClassSchema
