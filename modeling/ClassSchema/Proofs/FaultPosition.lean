import ClassSchema.Proofs.FirstFault

/-!
# Where a fault points

A text that is no annotation is found faulty at the first character with which it goes wrong: the text before can be continued to
an annotation, and the text through the character cannot. A word that ends in a dash is the exception, since it might have gone
on; there the fault points at the dash. A text that ends too early can be continued as it is. So what a fault says of a text is
true of it (`TypeExpr.parse_eq_error`).
-/

namespace ClassSchema

namespace Grammar

variable {limit : Nat} {cs pre post : List Char} {before : List Located} {t : Located} {p : Place} {fault : Fault}
  {text input : String}

/-! ## What can be continued -/

/-- The tokens of a text that is read to a place are behind the place. -/
theorem readTo_scan (hrun : (Token.scan 0 cs).foldlM (Place.step limit) .initial = .ok p) :
    ReadTo limit p ((Token.scan 0 cs).map (·.token)) :=
  (readTo_initial limit).run (proper_of_mem_scan 0 cs) hrun

/-- A text that is read to its end can be continued. -/
theorem viable_of_run (hrun : (Token.scan 0 cs).foldlM (Place.step limit) .initial = .ok p) : Viable cs :=
  (readTo_scan hrun).begun.viable (spells_scan 0 cs)

/-- In the place of a token that is refused, nothing that begins like it can stand. -/
theorem not_viable_of_unexpected (hstands : Stands 0 cs pre post before t) (ht : Proper t.token)
    (hrun : before.foldlM (Place.step limit) .initial = .ok p) (hword : ∀ c tail, t.token = .word c tail → ¬Beginning p)
    (hstep : p.step limit t = .error t.unexpected) : ¬Viable (pre ++ [t.token.firstChar]) := by
  rintro ⟨rest, a, ha⟩
  have htokens := (a.writes_iff_scan _ 0).1 ha
  -- The tokens before are the same, and the one in the place begins with the same character.
  obtain ⟨u, after, hscan, hfirst⟩ := exists_scan_cons (isBlank_firstChar ht) t.offset rest
  have hsame : Token.scan 0 (pre ++ t.token.firstChar :: rest) = before ++ ⟨t.offset, u⟩ :: after := by
    rw [hstands.scan_append _ (by simp), hscan]
  have hu : Proper u :=
    proper_of_mem_scan 0 (pre ++ t.token.firstChar :: rest) ⟨t.offset, u⟩ (by rw [hsame]; simp)
  have hstep' := step_unexpected_of_firstChar ht hu hfirst.symm hword hstep
  rw [String.toList_ofList, List.append_assoc, List.singleton_append, hsame] at htokens
  have herror : TypeExpr.ofTokens limit (before ++ ⟨t.offset, u⟩ :: after) = .error t.unexpected :=
    ofTokens_of_stop hrun hstep' after
  rcases a.refused_of_ofTokens htokens herror with h | ⟨_, _, h⟩ <;> cases h

/-! ## What a syntax error says -/

/-- A syntax error is the text and the first fault of its tokens. -/
theorem parse_eq_error_iff :
    TypeExpr.parse text = .error ⟨input, fault⟩ ↔
      input = text ∧ TypeExpr.ofTokens maxNesting (Token.scan 0 text.toList) = .error fault := by
  unfold TypeExpr.parse
  cases TypeExpr.ofTokens maxNesting (Token.scan 0 text.toList) with
  | ok t => simp [Except.mapError]
  | error fault' => simp [Except.mapError, eq_comm]

/-- A text has no tokens exactly when there are only blanks in it. -/
theorem scan_eq_nil_iff (offset : Nat) : Token.scan offset cs = [] ↔ ∀ c ∈ cs, isBlank c = true := by
  constructor
  · intro h
    have hspells := spells_scan offset cs
    rw [h, List.map_nil] at hspells
    cases hspells with
    | nil hblanks => exact hblanks
  · intro h
    have hscan := scan_blanks_append h offset []
    rw [List.append_nil, Token.scan] at hscan
    exact hscan

/-- A text is empty exactly when there are only blanks in it. -/
theorem exists_parse_eq_empty_iff :
    (∃ input, TypeExpr.parse text = .error ⟨input, .empty⟩) ↔ ∀ c ∈ text.toList, isBlank c = true := by
  rw [← scan_eq_nil_iff 0]
  constructor
  · rintro ⟨input, h⟩
    exact (firstFault_of_ofTokens (parse_eq_error_iff.1 h).2).eq_nil
  · intro h
    refine ⟨text, parse_eq_error_iff.2 ⟨rfl, ?_⟩⟩
    rw [h]
    rfl

/-- A text that ends too early is no annotation, and can be continued to one. -/
theorem exists_writes_append {expected : Expected} (h : TypeExpr.parse text = .error ⟨input, .unexpectedEnd expected⟩) :
    input = text ∧ (∀ a : Alternation, ¬a.Writes text) ∧ ∃ (more : String) (a : Alternation), a.Writes (text ++ more) := by
  obtain ⟨rfl, h⟩ := parse_eq_error_iff.1 h
  refine ⟨rfl, ?_, ?_⟩
  · intro a ha
    rcases a.refused_of_ofTokens ((a.writes_iff_scan _ 0).1 ha) h with h | ⟨_, _, h⟩ <;> nomatch h
  · obtain ⟨p, hrun⟩ := (firstFault_of_ofTokens h).exists_place
    obtain ⟨rest, a, ha⟩ := viable_of_run hrun
    refine ⟨.ofList rest, a, ?_⟩
    rwa [String.ofList_append, String.ofList_toList] at ha

/-- A character that ends a run of word characters longer than itself: there is one right before it and none right after it. -/
def EndsRun (before after : List Char) : Prop :=
  (∃ c ∈ before.getLast?, isWordChar c = true) ∧ ∀ c ∈ after.head?, isWordChar c = false

/-- An unexpected character stands at the offset. The text before it can be continued to an annotation and the text through it
cannot, or it is a dash at the end of a word. -/
structure PointsAt (cs : List Char) (offset : Nat) (found : Char) (before after : List Char) : Prop where
  text : cs = before ++ found :: after
  offset_eq : utf8Length before = offset
  viable : Viable before
  stuck : ¬Viable (before ++ [found]) ∨ found = '-' ∧ EndsRun before after ∧ Viable (before ++ [found])

/-- A token that is refused is refused at its first character. -/
theorem Stands.pointsAt (hstands : Stands 0 cs pre post before t) (ht : Proper t.token)
    (hrun : before.foldlM (Place.step limit) .initial = .ok p) (hword : ∀ c tail, t.token = .word c tail → ¬Beginning p)
    (hstep : p.step limit t = .error t.unexpected) : ∃ after, PointsAt cs t.offset t.token.firstChar pre after := by
  obtain ⟨tail, htail⟩ := List.head?_eq_some_iff.1 (head?_tokenText t.token)
  refine ⟨tail ++ post, ?_, ?_, ?_, Or.inl (not_viable_of_unexpected hstands ht hrun hword hstep)⟩
  · rw [hstands.text, htail, List.cons_append]
  · rw [hstands.offset_eq, Nat.zero_add]
  · rw [← hstands.scan_eq] at hrun
    exact viable_of_run hrun

/-- A word that ends in a dash is refused at the dash. -/
theorem Stands.pointsAt_dash (hstands : Stands 0 cs pre post before t) {c : Char} {tail : List Char}
    (ht : t.token = .word c tail) (hproper : Proper t.token) (hlast : tail.getLast? = some '-')
    (hrun : before.foldlM (Place.step limit) .initial = .ok p) (hp : Beginning p) :
    ∃ before', PointsAt cs (t.offset + tail.length) '-' before' post := by
  rw [← hstands.scan_eq] at hrun
  rw [ht] at hproper
  obtain ⟨hc, htail⟩ := hproper
  obtain ⟨inner, rfl⟩ := List.getLast?_eq_some_iff.1 hlast
  have hinner : ∀ d ∈ c :: inner, isWordChar d = true :=
    List.forall_mem_cons.2 ⟨isWordChar_of_isWordStart hc, fun d hd => htail d (List.mem_append_left _ hd)⟩
  have hviable {word : List Char} (hword : ∀ d ∈ word, isWordChar d = true) : Viable (pre ++ c :: word) :=
    (readTo_scan hrun).viable_word hp (spells_scan 0 pre) hc hword
  refine ⟨pre ++ c :: inner, ?_, ?_, hviable (List.forall_mem_cons.1 hinner).2, Or.inr ⟨rfl, ⟨?_, ?_⟩, ?_⟩⟩
  · rw [hstands.text, ht]
    simp only [tokenText, List.cons_append, List.append_assoc, List.nil_append]
  · rw [utf8Length_append, utf8Length_of_isWordChar hinner, hstands.offset_eq, List.length_cons, List.length_append,
      List.length_singleton, Nat.zero_add]
  · have hne : c :: inner ≠ [] := List.cons_ne_nil c inner
    refine ⟨(c :: inner).getLast hne, ?_, hinner _ (List.getLast_mem hne)⟩
    rw [List.getLast?_append_of_ne_nil _ hne, List.getLast?_eq_some_getLast hne]
    rfl
  · exact hstands.ends c _ ht
  · rw [List.append_assoc, List.cons_append]
    exact hviable htail

/-- An unexpected character is where the text goes wrong. -/
theorem exists_pointsAt {offset : Nat} {found : Char} (h : TypeExpr.parse text = .error ⟨input, .unexpected offset found⟩) :
    input = text ∧ ∃ before after, PointsAt text.toList offset found before after := by
  obtain ⟨rfl, h⟩ := parse_eq_error_iff.1 h
  obtain ⟨before, t, after, p, hscan, hrun, hstep⟩ :=
    (firstFault_of_ofTokens h).exists_step (by simp) (by simp) (by simp)
  obtain ⟨pre, post, hstands⟩ := stands_of_scan hscan
  have ht : Proper t.token := proper_of_mem_scan 0 input.toList t (by rw [hscan]; simp)
  refine ⟨rfl, ?_⟩
  generalize hfault : Fault.unexpected offset found = fault at hstep
  cases stepFault_of_step hstep with
  | unexpected hword =>
    cases hfault
    exact ⟨pre, hstands.pointsAt ht hrun hword hstep⟩
  | dash hp hword hlast =>
    cases hfault
    obtain ⟨before', hpoints⟩ := hstands.pointsAt_dash hword ht hlast hrun hp
    exact ⟨before', post, hpoints⟩
  | _ => nomatch hfault

end Grammar

open Grammar

/-- Syntax errors point at the first impossible character. A text is empty exactly when there are only blanks in it. A text
that ends too early is no annotation, but can be continued to one. An unexpected character stands at the offset in the text;
the text before it can be continued to an annotation, and the text through it cannot, unless it is the dash at the end of a run
of word characters longer than that dash. -/
theorem TypeExpr.parse_eq_error (text : String) :
    ((∃ input, TypeExpr.parse text = .error ⟨input, .empty⟩) ↔ ∀ c ∈ text.toList, isBlank c = true) ∧
    (∀ input expected, TypeExpr.parse text = .error ⟨input, .unexpectedEnd expected⟩ →
      input = text ∧ (∀ a : Alternation, ¬a.Writes text) ∧ ∃ (more : String) (a : Alternation), a.Writes (text ++ more)) ∧
    ∀ input offset found, TypeExpr.parse text = .error ⟨input, .unexpected offset found⟩ →
      input = text ∧ ∃ before after, text.toList = before ++ found :: after ∧ utf8Length before = offset ∧ Viable before ∧
        (¬Viable (before ++ [found]) ∨ found = '-' ∧ EndsRun before after ∧ Viable (before ++ [found])) := by
  refine ⟨exists_parse_eq_empty_iff, fun input expected h => exists_writes_append h, ?_⟩
  intro input offset found h
  obtain ⟨hinput, before, after, hpoints⟩ := exists_pointsAt h
  exact ⟨hinput, before, after, hpoints.text, hpoints.offset_eq, hpoints.viable, hpoints.stuck⟩

theorem TypeExpr.parse_eq_error_brokenTexts :
    ((∀ a : Alternation, ¬a.Writes "array<int") ∧ ∃ (more : String) (a : Alternation), a.Writes ("array<int" ++ more)) ∧
    (∃ before after, "\u00a0a<>".toList = before ++ '>' :: after ∧ utf8Length before = 4 ∧ Viable before ∧
      ¬Viable (before ++ ['>'])) ∧
    ∃ before after, "int-|a".toList = before ++ '-' :: after ∧ utf8Length before = 3 ∧ Viable before := by
  have hend : TypeExpr.parse "array<int" = .error ⟨"array<int", .unexpectedEnd (.entryEnd .angle)⟩ := by
    decide +kernel
  have hangle : TypeExpr.parse "\u00a0a<>" = .error ⟨"\u00a0a<>", .unexpected 4 '>'⟩ := by
    decide +kernel
  have hdash : TypeExpr.parse "int-|a" = .error ⟨"int-|a", .unexpected 3 '-'⟩ := by
    decide +kernel
  obtain ⟨-, hfinite, -⟩ := TypeExpr.parse_eq_error "array<int"
  obtain ⟨-, -, hstuck⟩ := TypeExpr.parse_eq_error "\u00a0a<>"
  obtain ⟨-, -, hopen⟩ := TypeExpr.parse_eq_error "int-|a"
  obtain ⟨-, before, after, htext, hoffset, hviable, hthrough⟩ := hstuck _ _ _ hangle
  obtain ⟨-, before', after', htext', hoffset', hviable', -⟩ := hopen _ _ _ hdash
  have hnot : ¬Viable (before ++ ['>']) := by
    rcases hthrough with h | ⟨h, -⟩
    · exact h
    · exact absurd h (by decide)
  exact ⟨(hfinite _ _ hend).2, ⟨before, after, htext, hoffset, hviable, hnot⟩, before', after', htext', hoffset', hviable'⟩

end ClassSchema
