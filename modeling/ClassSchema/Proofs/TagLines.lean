import ClassSchema.Proofs.TaggedType

/-!
# Tags line by line

A tag, its gap and its body stand in one line, so the end of a line cuts a comment into two whose tags have nothing to do with
each other (`bodies_append_lineEnd`). In a line the first tag with a gap takes the rest of the line, whatever other tags are in
there (`bodies_line`); the type is looked for behind the tag, and the gap is trimmed with the other blanks around the type
(`trimBody_blanks_append`). The main statement is `annotations_by_line`.
-/

namespace ClassSchema

namespace DocComment

open Grammar

variable {c : Char} {cs ds rest blanks : List Char}

/-! ## The search for tags, step by step -/

/-- A text in which a tag stands: the text before it, and the text after it, which begins with a gap. -/
def TagIn (cs before after : List Char) : Prop :=
  cs = before ++ '@' :: 'v' :: 'a' :: 'r' :: after ∧ ∃ c ∈ after.head?, isGap c = true

/-- No tag in the text stands before this one. -/
def FirstTag (cs before after : List Char) : Prop :=
  TagIn cs before after ∧ ∀ before' after', TagIn cs before' after' → before.length ≤ before'.length

/-- A text that starts with a tag goes on behind the gap. -/
theorem afterTag?_eq_some_iff : afterTag? cs = some rest ↔ ∃ after, TagIn cs [] after ∧ rest = after.dropWhile isGap := by
  constructor
  · intro h
    unfold afterTag? at h
    split at h
    · rename_i c ds
      by_cases hc : isGap c = true
      · rw [if_pos hc] at h
        refine ⟨c :: ds, ⟨rfl, c, rfl, hc⟩, ?_⟩
        rw [List.dropWhile_cons_of_pos hc]
        exact (Option.some.inj h).symm
      · rw [if_neg hc] at h
        nomatch h
    · nomatch h
  · rintro ⟨after, ⟨rfl, c, hc, hgap⟩, rfl⟩
    obtain ⟨ds, rfl⟩ := List.head?_eq_some_iff.1 hc
    rw [List.dropWhile_cons_of_pos hgap]
    exact if_pos hgap

/-- A tag at the start of a text has the rest of its line as its body. -/
theorem bodies_of_tag (h : afterTag? (c :: cs) = some rest) :
    bodies (c :: cs) = rest.takeWhile (!isLineEnd ·) :: bodies (rest.dropWhile (!isLineEnd ·)) := by
  rw [bodies]
  split
  · rename_i rest' h'
    obtain rfl : rest = rest' := Option.some.inj (h.symm.trans h')
    rfl
  · rename_i h'
    cases h.symm.trans h'

/-- Where no tag starts, the search goes on. -/
theorem bodies_of_no_tag (h : afterTag? (c :: cs) = none) : bodies (c :: cs) = bodies cs := by
  rw [bodies]
  split
  · rename_i rest h'
    cases h.symm.trans h'
  · rfl

/-! ## The end of a line -/

/-- A line does not end in a gap. -/
theorem isGap_of_isLineEnd (hc : isLineEnd c = true) : isGap c = false := by
  simp only [isLineEnd, Bool.or_eq_true, beq_iff_eq] at hc
  rcases hc with rfl | rfl <;> decide

/-- A tag does not go over the end of a line. -/
theorem afterTag?_append_lineEnd (hc : isLineEnd c = true) (cs ds : List Char) :
    afterTag? (cs ++ c :: ds) = (afterTag? cs).map (· ++ c :: ds) := by
  have hgap : isGap c = false := isGap_of_isLineEnd hc
  cases h : afterTag? cs with
  | some rest =>
    obtain ⟨after, ⟨rfl, d, hd, hgap'⟩, rfl⟩ := afterTag?_eq_some_iff.1 h
    obtain ⟨es, rfl⟩ := List.head?_eq_some_iff.1 hd
    refine afterTag?_eq_some_iff.2 ⟨d :: es ++ c :: ds, ⟨rfl, d, rfl, hgap'⟩, ?_⟩
    exact (dropWhile_append_cons hgap (d :: es) ds).symm
  | none =>
    rw [Option.map_none, Option.eq_none_iff_forall_ne_some]
    intro rest hrest
    obtain ⟨after, ⟨heq, d, hd, hgap'⟩, -⟩ := afterTag?_eq_some_iff.1 hrest
    obtain ⟨es, rfl⟩ := List.head?_eq_some_iff.1 hd
    -- The end of the line would be a letter of the tag or its gap, or the tag would be before it.
    rcases cs with _ | ⟨c₀, _ | ⟨c₁, _ | ⟨c₂, _ | ⟨c₃, _ | ⟨c₄, cs⟩⟩⟩⟩⟩
    all_goals simp only [List.cons_append, List.nil_append, List.cons.injEq] at heq
    · rw [heq.1] at hc
      nomatch hc
    · rw [heq.2.1] at hc
      nomatch hc
    · rw [heq.2.2.1] at hc
      nomatch hc
    · rw [heq.2.2.2.1] at hc
      nomatch hc
    · rw [heq.2.2.2.2.1] at hgap
      nomatch hgap.symm.trans hgap'
    · obtain ⟨rfl, rfl, rfl, rfl, rfl, -⟩ := heq
      nomatch h.symm.trans (afterTag?_eq_some_iff.2 ⟨c₄ :: cs, ⟨rfl, c₄, rfl, hgap'⟩, rfl⟩)

/-- The tags before the end of a line and those after it are found separately. -/
theorem bodies_append_lineEnd (hc : isLineEnd c = true) (cs ds : List Char) :
    bodies (cs ++ c :: ds) = bodies cs ++ bodies ds := by
  have hstop : (!isLineEnd c) = false := by rw [hc]; rfl
  induction cs using bodies.induct with
  | case1 =>
    rw [List.nil_append, bodies_of_no_tag, bodies, List.nil_append]
    exact afterTag?_append_lineEnd hc [] ds
  | case2 d cs rest htag ih =>
    have htag' : afterTag? (d :: (cs ++ c :: ds)) = some (rest ++ c :: ds) := by
      rw [← List.cons_append, afterTag?_append_lineEnd hc, htag]
      rfl
    rw [List.cons_append, bodies_of_tag htag', takeWhile_append_cons hstop, dropWhile_append_cons hstop, ih,
      bodies_of_tag htag, List.cons_append]
  | case3 d cs htag ih =>
    have htag' : afterTag? (d :: (cs ++ c :: ds)) = none := by
      rw [← List.cons_append, afterTag?_append_lineEnd hc, htag]
      rfl
    rw [List.cons_append, bodies_of_no_tag htag', ih, bodies_of_no_tag htag]

/-- A break of any number of characters that end lines does the same as one. -/
theorem bodies_append_break {nl : List Char} (hne : nl ≠ []) (hnl : ∀ c ∈ nl, isLineEnd c = true) (cs ds : List Char) :
    bodies (cs ++ nl ++ ds) = bodies cs ++ bodies ds := by
  induction nl generalizing cs with
  | nil => exact absurd rfl hne
  | cons c nl ih =>
    rw [List.forall_mem_cons] at hnl
    rw [List.append_assoc, List.cons_append, bodies_append_lineEnd hnl.1]
    cases nl with
    | nil => rfl
    | cons d nl =>
      have := ih (by simp) hnl.2 []
      rw [List.nil_append, bodies, List.nil_append] at this
      rw [this]

/-! ## One line -/

/-- Where no tag starts a text, its tags are those behind the first character. -/
theorem TagIn.of_cons {before after : List Char} (htag : afterTag? (c :: cs) = none) (h : TagIn (c :: cs) before after) :
    ∃ before', before = c :: before' ∧ TagIn cs before' after := by
  cases before with
  | nil => nomatch htag.symm.trans (afterTag?_eq_some_iff.2 ⟨after, h, rfl⟩)
  | cons d before =>
    obtain ⟨heq, hgap⟩ := h
    obtain ⟨rfl, heq'⟩ := List.cons.inj heq
    exact ⟨before, rfl, heq', hgap⟩

/-- A line has no tag and no body, or one body: what follows the gap of its first tag. -/
theorem bodies_line (hline : ∀ c ∈ cs, isLineEnd c = false) :
    ((∀ before after, ¬TagIn cs before after) ∧ bodies cs = []) ∨
      ∃ before after, FirstTag cs before after ∧ bodies cs = [after.dropWhile isGap] := by
  induction cs with
  | nil =>
    refine Or.inl ⟨?_, by rw [bodies]⟩
    rintro before after ⟨heq, -⟩
    simp at heq
  | cons c cs ih =>
    cases htag : afterTag? (c :: cs) with
    | some rest =>
      obtain ⟨after, hin, rfl⟩ := afterTag?_eq_some_iff.1 htag
      refine Or.inr ⟨[], after, ⟨hin, fun _ _ _ => Nat.zero_le _⟩, ?_⟩
      have hrest : ∀ d ∈ after.dropWhile isGap, (!isLineEnd d) = true := by
        intro d hd
        have hmem : d ∈ c :: cs := by
          rw [hin.1]
          simp [(List.dropWhile_sublist _).subset hd]
        simp [hline d hmem]
      rw [bodies_of_tag htag, List.takeWhile_eq_self_iff.2 hrest, List.dropWhile_eq_nil_iff.2 hrest, bodies]
    | none =>
      rw [List.forall_mem_cons] at hline
      rw [bodies_of_no_tag htag]
      rcases ih hline.2 with ⟨hnone, hbodies⟩ | ⟨before, after, ⟨hin, hfirst⟩, hbodies⟩
      · refine Or.inl ⟨fun before after h => ?_, hbodies⟩
        obtain ⟨before', -, h⟩ := h.of_cons htag
        exact hnone before' after h
      · refine Or.inr ⟨c :: before, after, ⟨⟨by rw [hin.1]; rfl, hin.2⟩, fun before' after' h => ?_⟩, hbodies⟩
        obtain ⟨before'', rfl, h'⟩ := h.of_cons htag
        exact Nat.succ_le_succ (hfirst before'' after' h')

/-! ## The gap -/

/-- Blanks before a body are trimmed. -/
theorem trimBody_blanks_append (hblanks : ∀ c ∈ blanks, isBlank c = true) (cs : List Char) :
    trimBody (blanks ++ cs) = trimBody cs := by
  have hends (ds : List Char) : dropEnds (blanks ++ ds) = blanks ++ dropEnds ds := by
    rcases blanks.eq_nil_or_concat with rfl | ⟨inner, b, rfl⟩
    · rfl
    have hb : isBlank b = true := hblanks b (by simp)
    have hslash : b ≠ '/' := by rintro rfl; nomatch hb
    have hstar : b ≠ '*' := by rintro rfl; nomatch hb
    unfold dropEnds
    rw [List.reverse_append, List.concat_eq_append, List.reverse_concat, dropClosers_append hslash hstar, List.reverse_append,
      List.reverse_cons, List.reverse_reverse]
  have htrim (ds : List Char) : trim (blanks ++ ds) = trim ds := by
    rw [trim, List.dropWhile_append_of_pos hblanks, trim]
  by_cases hcs : trimEnd cs = []
  · have hall : ∀ c ∈ cs, isBlank c = true := by
      intro c hc
      rw [trimEnd, List.reverse_eq_nil_iff, List.dropWhile_eq_nil_iff] at hcs
      exact hcs c (List.mem_reverse.2 hc)
    have hboth : trimEnd (blanks ++ cs) = [] := trimEnd_blanks (List.forall_mem_append.2 ⟨hblanks, hall⟩)
    rw [trimBody_eq, trimBody_eq, hboth, hcs]
  · have hkeep : trimEnd (blanks ++ cs) = blanks ++ trimEnd cs := by
      unfold trimEnd at hcs ⊢
      rw [List.reverse_append, List.dropWhile_append, if_neg, List.reverse_append, List.reverse_reverse]
      simpa using hcs
    rw [trimBody_eq, trimBody_eq, hkeep, hends, htrim]

/-- The type behind a tag is found whether or not the gap is dropped before. -/
theorem leadingType_dropWhile_isGap (cs : List Char) : leadingType (cs.dropWhile isGap) = leadingType cs := by
  have hgap : ∀ c ∈ cs.takeWhile isGap, isBlank c = true := by
    intro c hc
    have hc' : isGap c = true := List.mem_takeWhile_imp hc
    simp only [isGap, Bool.or_eq_true, beq_iff_eq] at hc'
    rcases hc' with rfl | rfl <;> decide
  have := trimBody_blanks_append hgap (cs.dropWhile isGap)
  rw [List.takeWhile_append_dropWhile] at this
  rw [leadingType, leadingType, this]

/-! ## The types of a comment -/

/-- A text has at most one first tag. -/
theorem FirstTag.unique {before after before' after' : List Char} (h : FirstTag cs before after)
    (h' : FirstTag cs before' after') : before = before' ∧ after = after' := by
  have hlength : before.length = before'.length := Nat.le_antisymm (h.2 _ _ h'.1) (h'.2 _ _ h.1)
  obtain ⟨hbefore, hrest⟩ := List.append_inj (h.1.1.symm.trans h'.1.1) hlength
  simp only [List.cons.injEq, true_and] at hrest
  exact ⟨hbefore, hrest⟩

/-- The types of a text are found in its bodies. -/
theorem annotations_eq_of_bodies {text : String} {found : List (List Char)} (h : bodies text.toList = found) :
    annotations text = ((found.map leadingType).filter (!·.isEmpty)).map .ofList := by
  rw [annotations, h]

/-- A line without a tag declares nothing, and a line with one declares at most the type behind its first tag. -/
theorem mem_annotations_line {line : String} (hline : ∀ c ∈ line.toList, isLineEnd c = false) :
    (annotations line).length ≤ 1 ∧
      ∀ type, type ∈ annotations line ↔
        type ≠ "" ∧ ∃ before after, FirstTag line.toList before after ∧ type = .ofList (leadingType after) := by
  rcases bodies_line hline with ⟨hnone, hbodies⟩ | ⟨before, after, hfirst, hbodies⟩
  · rw [annotations_eq_of_bodies hbodies]
    refine ⟨Nat.zero_le 1, fun type => ⟨fun h => (List.not_mem_nil h).elim, ?_⟩⟩
    rintro ⟨-, before, after, hfirst, -⟩
    exact absurd hfirst.1 (hnone before after)
  · have hannotations : annotations line = ([leadingType after].filter (!·.isEmpty)).map .ofList := by
      rw [annotations_eq_of_bodies hbodies, List.map_singleton, leadingType_dropWhile_isGap]
    have hempty (type : String) (htype : type = .ofList (leadingType after)) : type ≠ "" ↔ leadingType after ≠ [] := by
      rw [htype, ne_eq, ne_eq, ← String.toList_inj, String.toList_ofList]
      rfl
    rw [hannotations]
    refine ⟨?_, fun type => ?_⟩
    · rw [List.length_map]
      exact List.length_filter_le _ _
    · simp only [List.mem_map, List.mem_filter, List.mem_singleton, Bool.not_eq_true', List.isEmpty_eq_false_iff]
      constructor
      · rintro ⟨_, ⟨rfl, hne⟩, rfl⟩
        exact ⟨(hempty _ rfl).2 hne, before, after, hfirst, rfl⟩
      · rintro ⟨hne, before', after', hfirst', rfl⟩
        obtain ⟨-, rfl⟩ := hfirst.unique hfirst'
        exact ⟨_, ⟨rfl, (hempty _ rfl).1 hne⟩, rfl⟩

/-- The types of a comment are found line by line. Those of two texts with a line break between them are those of the first and
then those of the second. In a line there is at most one, and it is what stands at the start of the text after the first tag that
has a gap after it, if that is anything, whatever other tags the line holds. -/
theorem annotations_by_line :
    (∀ first second nl : String, nl ∈ ["\n", "\r", "\r\n"] →
      annotations (first ++ nl ++ second) = annotations first ++ annotations second) ∧
    ∀ line : String, (∀ c ∈ line.toList, isLineEnd c = false) →
      (annotations line).length ≤ 1 ∧
      ∀ type, type ∈ annotations line ↔
        type ≠ "" ∧ ∃ before after, FirstTag line.toList before after ∧ type = .ofList (leadingType after) := by
  refine ⟨fun first second nl hnl => ?_, fun line hline => mem_annotations_line hline⟩
  have hbreak : nl.toList ≠ [] ∧ ∀ c ∈ nl.toList, isLineEnd c = true := by
    simp only [List.mem_cons, List.not_mem_nil, or_false] at hnl
    rcases hnl with rfl | rfl | rfl <;> decide
  have hbodies : bodies (first ++ nl ++ second).toList = bodies first.toList ++ bodies second.toList := by
    rw [String.toList_append, String.toList_append, bodies_append_break hbreak.1 hbreak.2]
  rw [annotations_eq_of_bodies hbodies, List.map_append, List.filter_append, List.map_append, annotations, annotations]

theorem annotations_by_line_twoTags :
    annotations ("/** @var " ++ "\r\n" ++ " * @variant @var ?int $x @var string */") =
        annotations "/** @var " ++ annotations " * @variant @var ?int $x @var string */" ∧
      "?int" ∈ annotations " * @variant @var ?int $x @var string */" ∧
      (annotations " * @variant @var ?int $x @var string */").length ≤ 1 := by
  obtain ⟨hbreak, hlines⟩ := annotations_by_line
  obtain ⟨hlength, hmem⟩ := hlines " * @variant @var ?int $x @var string */" (by decide)
  refine ⟨hbreak _ _ _ (by decide), (hmem "?int").2 ⟨by decide, ?_⟩, hlength⟩
  refine ⟨" * @variant ".toList, " ?int $x @var string */".toList, ⟨⟨rfl, by decide⟩, ?_⟩, by decide +kernel⟩
  intro before' after' ⟨heq, hgap⟩
  by_contra hlt
  have hnone : ∀ i < 12, afterTag? (" * @variant @var ?int $x @var string */".toList.drop i) = none := by decide +kernel
  have hsome : afterTag? (" * @variant @var ?int $x @var string */".toList.drop before'.length) = some (after'.dropWhile isGap) :=
    afterTag?_eq_some_iff.2 ⟨after', ⟨by rw [heq, List.drop_left, List.nil_append], hgap⟩, rfl⟩
  nomatch (hnone before'.length (Nat.lt_of_not_le hlt)).symm.trans hsome

end DocComment

end ClassSchema
