import ClassSchema.Proofs.TypeScan

/-!
# The type behind a tag

What is read from a type that stands behind a tag in a doc comment. Before the tag may stand anything that holds no tag with a
gap after it, so that the tag is the first (`bodies_append_tag`). After the type the comment may end, or something else may follow
a blank (`Follows`); the ends of the comment and the blanks around it are trimmed, and what is left after the type does not go on
with it (`stops_trimTail`). The main statement is `annotations_append_tag`: one type is found, and it is read as the type itself
is.
-/

namespace ClassSchema

namespace DocComment

open Grammar

variable {cs ds core left right rest follow : List Char}

/-! ## Tags -/

/-- A text in which no tag has a gap after it. -/
def Untagged (cs : List Char) : Prop := ∀ c ∈ [' ', '\t'], ¬(['@', 'v', 'a', 'r', c] <:+: cs)

instance (cs : List Char) : Decidable (Untagged cs) :=
  inferInstanceAs (Decidable (∀ c ∈ [' ', '\t'], ¬(['@', 'v', 'a', 'r', c] <:+: cs)))

/-- A text that starts with a tag does not start with it where no tag has a gap. -/
theorem afterTag?_eq_none (h : Untagged cs) (hne : cs ≠ []) (rest : List Char) :
    afterTag? (cs ++ '@' :: rest) = none := by
  unfold afterTag?
  split
  · rename_i c ds heq
    -- The tag would end in the text, or would have the `@` in it.
    rcases cs with _ | ⟨c₀, _ | ⟨c₁, _ | ⟨c₂, _ | ⟨c₃, _ | ⟨c₄, cs⟩⟩⟩⟩⟩
    · exact absurd rfl hne
    all_goals simp only [List.cons_append, List.nil_append, List.cons.injEq, Char.reduceEq, false_and, and_false] at heq
    · obtain ⟨-, -, -, -, rfl, -⟩ := heq
      rfl
    · obtain ⟨rfl, rfl, rfl, rfl, rfl, -⟩ := heq
      refine if_neg fun hgap => ?_
      simp only [isGap, Bool.or_eq_true, beq_iff_eq] at hgap
      exact h c₄ (by simpa using hgap) ⟨[], cs, rfl⟩
  · rfl

/-- The first tag with a gap has the rest of its line as its body. -/
theorem bodies_tag (hrest : ∀ c ∈ rest, isLineEnd c = false) :
    bodies ('@' :: 'v' :: 'a' :: 'r' :: ' ' :: rest) = [rest.dropWhile isGap] := by
  have htag : afterTag? ('@' :: 'v' :: 'a' :: 'r' :: ' ' :: rest) = some (rest.dropWhile isGap) := rfl
  have hline : ∀ c ∈ rest.dropWhile isGap, (!isLineEnd c) = true := by
    intro c hc
    simp [hrest c ((List.dropWhile_sublist _).subset hc)]
  rw [bodies]
  split
  · rename_i body hbody
    obtain rfl : rest.dropWhile isGap = body := Option.some.inj (htag.symm.trans hbody)
    rw [List.takeWhile_eq_self_iff.2 hline, List.dropWhile_eq_nil_iff.2 hline, bodies]
  · rename_i hbody
    rw [htag] at hbody
    cases hbody

/-- Nothing before the first tag with a gap is found. -/
theorem bodies_append_tag (h : Untagged cs) (hrest : ∀ c ∈ rest, isLineEnd c = false) :
    bodies (cs ++ '@' :: 'v' :: 'a' :: 'r' :: ' ' :: rest) = [rest.dropWhile isGap] := by
  induction cs with
  | nil => exact bodies_tag hrest
  | cons c cs ih =>
    have htail : Untagged cs := fun d hd hin => h d hd (hin.trans (List.suffix_cons c cs).isInfix)
    rw [List.cons_append, bodies]
    split
    · rename_i body hbody
      rw [← List.cons_append, afterTag?_eq_none h (by simp)] at hbody
      cases hbody
    · exact ih htail

/-! ## Trimming -/

/-- What is left of the text after a type when the body around it is trimmed. -/
def trimTail (cs : List Char) : List Char := trimEnd (dropEnds (trimEnd cs))

theorem trimTail_isPrefix (cs : List Char) : trimTail cs <+: cs :=
  (trimEnd_isPrefix _).trans ((dropEnds_isPrefix _).trans (trimEnd_isPrefix cs))

/-- A body is trimmed to the type in it and to what is left after the type. -/
theorem trimBody_append (hleft : ∀ c ∈ left, isBlank c = true) (hne : core ≠ [])
    (hhead : ∀ c ∈ core.head?, isBlank c = false)
    (hlast : ∀ c ∈ core.getLast?, isBlank c = false ∧ c ∉ ['|', '?', '/', '*']) (cs : List Char) :
    trimBody (left ++ core ++ cs) = core ++ trimTail cs := by
  obtain ⟨c, hc⟩ : ∃ c, core.getLast? = some c := ⟨_, List.getLast?_eq_some_getLast hne⟩
  obtain ⟨hblank, hother⟩ := hlast c hc
  have hslash : c ≠ '/' := fun h => hother (by simp [h])
  have hstar : c ≠ '*' := fun h => hother (by simp [h])
  have hc' : (left ++ core).getLast? = some c := (List.getLast?_append_of_ne_nil _ hne).trans hc
  have hlast' : ∀ d ∈ (left ++ core).getLast?, isBlank d = false := by
    rw [hc']
    rintro d ⟨⟩
    exact hblank
  have hends : ∀ ds, dropEnds (left ++ core ++ ds) = left ++ core ++ dropEnds ds := by
    intro ds
    obtain ⟨es, hes⟩ := List.head?_eq_some_iff.1 (List.head?_reverse.trans hc')
    unfold dropEnds
    rw [List.reverse_append, hes, dropClosers_append hslash hstar, ← hes, List.reverse_append, List.reverse_reverse]
  have hdrop : ∀ ds, (left ++ core ++ ds).dropWhile isBlank = core ++ ds := by
    intro ds
    rw [List.append_assoc, List.dropWhile_append_of_pos hleft]
    exact dropWhile_isBlank_eq_self (by rwa [List.head?_append_of_ne_nil _ hne])
  have hlast'' : ∀ d ∈ core.getLast?, isBlank d = false := fun d hd => (hlast d hd).1
  rw [trimBody_eq, trimEnd_append hlast', hends, trim, hdrop, trimEnd_append hlast'', trimTail]

/-! ## What follows a type -/

/-- What may follow a type in a comment: nothing, the end of the comment, or a blank and then something else than a `|`. -/
def Follows (cs : List Char) : Prop :=
  cs = [] ∨ cs = ['*', '/'] ∨ (∃ c ∈ cs.head?, isBlank c = true) ∧ (cs.dropWhile isBlank).head? ≠ some '|'

instance (cs : List Char) : Decidable (Follows cs) := inferInstanceAs (Decidable (_ ∨ _))

/-- The first of what is left of a text that is kept up to some place is the first of the text, if anything is left. -/
theorem head?_dropWhile_of_isPrefix {p : Char → Bool} (h : ds <+: cs) {c : Char} (hc : (ds.dropWhile p).head? = some c) :
    (cs.dropWhile p).head? = some c := by
  obtain ⟨es, rfl⟩ := h
  rw [List.dropWhile_append]
  split
  · rename_i hempty
    rw [List.isEmpty_iff.1 hempty] at hc
    nomatch hc
  · rename_i hne
    rw [List.head?_append_of_ne_nil _ (by simpa using hne), hc]

/-- A text that does not go on with a type does not do so when only its beginning is kept. -/
theorem stops_of_isPrefix (h : ds <+: cs) (hblank : ∃ c ∈ cs.head?, isBlank c = true)
    (hnext : (cs.dropWhile isBlank).head? ≠ some '|') : Stops ds := by
  rcases ds with _ | ⟨d, ds⟩
  · exact Or.inl rfl
  · obtain ⟨rest, rfl⟩ := h
    obtain ⟨c, hc, hblank⟩ := hblank
    exact Or.inr ⟨⟨c, hc, hblank⟩, fun hbar => hnext (head?_dropWhile_of_isPrefix ⟨rest, rfl⟩ hbar)⟩

/-- The end of the comment is dropped, and then the blanks before it. -/
theorem trimTail_closer (hright : ∀ c ∈ right, isBlank c = true) : trimTail (right ++ ['*', '/']) = [] := by
  have hlast : ∀ c ∈ (right ++ ['*', '/']).getLast?, isBlank c = false := by
    rw [List.getLast?_append_of_ne_nil _ (by simp)]
    decide
  have hend : trimEnd (right ++ ['*', '/']) = right ++ ['*', '/'] := by
    simpa [trimEnd] using trimEnd_append hlast []
  have hdrop : dropEnds (right ++ ['*', '/']) = dropEnds right := by
    unfold dropEnds
    rw [List.reverse_append]
    rfl
  rw [trimTail, hend, hdrop, trimEnd_blanks fun c hc => hright c ((dropEnds_isPrefix right).subset hc)]

/-- What is left after a type does not go on with it. -/
theorem stops_trimTail (hright : ∀ c ∈ right, isBlank c = true) (hfollow : Follows follow) :
    Stops (trimTail (right ++ follow)) := by
  rcases hfollow with rfl | rfl | ⟨hblank, hnext⟩
  · left
    rw [List.append_nil, trimTail, trimEnd_blanks hright]
    rfl
  · exact Or.inl (trimTail_closer hright)
  · have hnext' : ((right ++ follow).dropWhile isBlank).head? ≠ some '|' := by
      rwa [List.dropWhile_append_of_pos hright]
    refine stops_of_isPrefix (trimTail_isPrefix _) ?_ hnext'
    cases right with
    | nil => exact hblank
    | cons d ds => exact ⟨d, rfl, hright d List.mem_cons_self⟩

/-! ## The type that is found -/

/-- A text that ends as a token does is not empty. -/
theorem ne_nil_of_getLast? {t : Token} (h : cs.getLast? = (tokenText t).getLast?) : cs ≠ [] := by
  rintro rfl
  exact tokenText_ne_nil t (List.getLast?_eq_none_iff.1 h.symm)

/-- A text of tokens is what its tokens are in, with blanks around it: without the blanks it starts with the first token and
ends with the last. -/
theorem exists_core {ts us : List Token} {last : Token} (h : Spells cs ts) (hts : ts = us ++ [last]) :
    ∃ left core right, cs = left ++ core ++ right ∧ (∀ c ∈ left, isBlank c = true) ∧ (∀ c ∈ right, isBlank c = true) ∧
      Spells core ts ∧ (∃ t ∈ ts, (tokenText t).head? = core.head?) ∧ core.getLast? = (tokenText last).getLast? := by
  induction h generalizing us with
  | nil => simp at hts
  | @cons blanks cs t ts hb hrest ih =>
    have hne := tokenText_ne_nil t
    cases us with
    | nil =>
      obtain ⟨rfl, rfl⟩ := List.cons.inj hts
      cases hrest with
      | nil hright =>
        exact ⟨blanks, tokenText t, _, rfl, hb, hright, spells_token t, ⟨t, List.mem_cons_self, rfl⟩, rfl⟩
    | cons u us =>
      obtain ⟨rfl, rfl⟩ := List.cons.inj hts
      obtain ⟨left, core, right, rfl, hleft, hright, hspells, -, hlast⟩ := ih rfl
      have hcore := ne_nil_of_getLast? hlast
      refine ⟨blanks, tokenText t ++ (left ++ core), right, by simp, hb, hright, ?_, ⟨t, List.mem_cons_self, ?_⟩, ?_⟩
      · exact Spells.token_cons (hspells.blanks_append hleft)
      · rw [List.head?_append_of_ne_nil _ hne]
      · rw [← List.append_assoc, List.getLast?_append_of_ne_nil _ hcore, hlast]

/-- The gap after a tag is dropped from the blanks before the type. -/
theorem dropWhile_isGap_append (hne : core ≠ []) (hhead : ∀ c ∈ core.head?, isBlank c = false) (cs : List Char) :
    (left ++ core ++ cs).dropWhile isGap = left.dropWhile isGap ++ core ++ cs := by
  obtain ⟨c, ds, rfl⟩ := List.exists_cons_of_ne_nil hne
  have hc : ¬isGap c = true := by
    intro hgap
    have hblank : isBlank c = true := by
      simp only [isGap, Bool.or_eq_true, beq_iff_eq] at hgap
      rcases hgap with rfl | rfl <;> decide
    rw [hhead c rfl] at hblank
    nomatch hblank
  rw [List.append_assoc, List.append_assoc, List.cons_append, List.dropWhile_append]
  split
  · rename_i hempty
    rw [List.isEmpty_iff.1 hempty, List.dropWhile_cons_of_neg hc, List.nil_append]
  · rfl

/-- Behind a tag, the scanner goes through the text of an annotation without the blanks around it, and then through what is left
of the text after it. -/
theorem exists_leadingType_eq {a : Alternation} (hspells : Spells cs a.tokens) (follow : List Char) :
    ∃ left core right, cs = left ++ core ++ right ∧ (∀ c ∈ left, isBlank c = true) ∧ (∀ c ∈ right, isBlank c = true) ∧
      Spells core a.tokens ∧ core ≠ [] ∧ (∀ c ∈ core.head?, isBlank c = false) ∧
      (∀ c ∈ core.getLast?, isBlank c = false ∧ c ∉ ['|', '?', '/', '*']) ∧
      leadingType ((cs ++ follow).dropWhile isGap) = typeFrom 0 none (core ++ trimTail (right ++ follow)) := by
  have hproper := a.legible.proper
  obtain ⟨us, last, htokens, hclosing⟩ := closes_tokens a
  have hlastproper : Proper last := hproper last (by simp [htokens])
  obtain ⟨left, core, right, rfl, hleft, hright, hcore, ⟨first, hfirst, hhead⟩, hlast⟩ := exists_core hspells htokens
  have hcorehead : ∀ c ∈ core.head?, isBlank c = false := by
    rw [← hhead]
    exact fun c hc => isBlank_of_mem_tokenText (hproper first hfirst) c (List.mem_of_mem_head? hc)
  have hcorelast : ∀ c ∈ core.getLast?, isBlank c = false ∧ c ∉ ['|', '?', '/', '*'] := by
    rw [hlast]
    exact hclosing.lastChar hlastproper
  have hne := ne_nil_of_getLast? hlast
  have hleft' : ∀ c ∈ left.dropWhile isGap, isBlank c = true :=
    fun c hc => hleft c ((List.dropWhile_sublist _).subset hc)
  refine ⟨left, core, right, rfl, hleft, hright, hcore, hne, hcorehead, hcorelast, ?_⟩
  rw [List.append_assoc _ right, dropWhile_isGap_append hne hcorehead, leadingType, trimBody_append hleft' hne hcorehead hcorelast]

/-- A type is found wherever a text begins with no blank. -/
theorem typeFrom_ne_nil (hne : core ≠ []) (hhead : ∀ c ∈ core.head?, isBlank c = false) (depth : Int) (last : Option Char)
    (cs : List Char) : typeFrom depth last (core ++ cs) ≠ [] := by
  obtain ⟨c, ds, rfl⟩ := List.exists_cons_of_ne_nil hne
  rw [List.cons_append, typeFrom, if_neg (by simp [hhead c rfl])]
  exact List.cons_ne_nil _ _

/-- From a type behind the first tag of a comment one type is found, and it is read as the type by itself is. -/
theorem annotations_append_tag {before text follow : String} {t : TypeExpr} (hbefore : Untagged before.toList)
    (hlines : ∀ c ∈ text.toList ++ follow.toList, isLineEnd c = false) (hjoined : Joined text.toList)
    (hfollow : Follows follow.toList) (hparse : TypeExpr.parse text = .ok t) :
    ∃ found, annotations (before ++ "@var " ++ text ++ follow) = [found] ∧ TypeExpr.parse found = .ok t := by
  obtain ⟨a, hwrites, ht, hcost⟩ := exists_writes_of_parse hparse
  obtain ⟨left, core, right, htext, hleft, hright, hcore, hne, hhead, hlast, hfound⟩ :=
    exists_leadingType_eq hwrites follow.toList
  have hbodies : bodies (before ++ "@var " ++ text ++ follow).toList =
      [(text.toList ++ follow.toList).dropWhile isGap] := by
    rw [← bodies_append_tag hbefore hlines]
    simp [String.toList_append]
  have hdepth : bracketDepth core = 0 := (bracketDepth_of_spells hcore).trans (bracketDepth_tokens a)
  have hstops : typeFrom (bracketDepth core) core.getLast? (trimTail (right ++ follow.toList)) = [] := by
    refine typeFrom_stops (stops_trimTail hright hfollow) (by omega) ?_ ?_
    · exact fun h => (hlast _ h).2 (by simp)
    · exact fun h => (hlast _ h).2 (by simp)
  have hspells : Spells (typeFrom 0 none (core ++ trimTail (right ++ follow.toList))) a.tokens := by
    rw [htext] at hjoined
    exact spells_typeFrom (hjoined.inner hleft) (fun c hc => (hlast c hc).1) hhead hstops hcore a.legible.proper [] rfl
      (by simp)
  refine ⟨.ofList (typeFrom 0 none (core ++ trimTail (right ++ follow.toList))), ?_, ?_⟩
  · rw [annotations, hbodies]
    simp [hfound, typeFrom_ne_nil hne hhead]
  · refine Alternation.parse_eq_ok ?_ ht hcost
    rw [Alternation.Writes, String.toList_ofList]
    exact hspells

end DocComment

end ClassSchema
